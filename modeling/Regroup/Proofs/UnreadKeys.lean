import Regroup.Config.Schema
import Regroup.Config.UnusedKeys
import Regroup.Proofs.Leaves
import Regroup.Proofs.Sorting

/-! Leaves that are reported as unused against what reading the settings looks at. The report goes by
names, and by names it is right. But settings and their sections may also be given as arrays, which
are read by position, and there the report lists leaves that decide a setting. -/

namespace Regroup.Json

/-- The value with another part at a place that it has. -/
def replaceAt : Json → List Step → Json → Json
  | _, [], part => part
  | .obj fields, .field name :: rest, part =>
    .obj (modifyFirst (·.1 == name) (fun f => (f.1, f.2.replaceAt rest part)) fields)
  | .arr items, .index i :: rest, part => .arr (items.modify i (·.replaceAt rest part))
  | v, _, _ => v

end Regroup.Json

namespace Regroup.Config

open Json (Leaf)

variable {σ ε α : Type}

/-- A place where the settings are read by position: in a section that is an array, or in a section
that is given by its place among all. -/
def ReadByPosition : List Json.Step → Prop
  | .field name :: .index i :: _ => ∃ names, (name, names) ∈ consumed ∧ i < names.length
  | .index i :: .field key :: _ => ∃ s, consumed[i]? = some s ∧ key ∈ s.2
  | .index i :: .index j :: _ => ∃ s, consumed[i]? = some s ∧ j < s.2.length
  | _ => False

theorem foldlM_modifyFirst {g : σ → α → Except ε σ} {p : α → Bool} {f : α → α}
    (h : ∀ s x, p x = true → g s (f x) = g s x) (xs : List α) (s : σ) :
    (modifyFirst p f xs).foldlM g s = xs.foldlM g s := by
  induction xs generalizing s with
  | nil => rfl
  | cons x xs ih =>
    by_cases hx : p x = true
    · simp [modifyFirst, hx, h s x hx]
    · simp [modifyFirst, hx, ih]

theorem toOption_bind_of_none {x : Except ε σ} (h : x.toOption = none) (f : σ → Except ε α) :
    (x >>= f).toOption = none := by
  cases x with
  | error e => rfl
  | ok s => cases h

theorem foldlM_fails {g : σ → α → Except ε σ} {xs : List α} {x : α} (hx : x ∈ xs)
    (h : ∀ s, (g s x).toOption = none) (s : σ) : (xs.foldlM g s).toOption = none := by
  induction xs generalizing s with
  | nil => simp at hx
  | cons y xs ih =>
    rw [List.foldlM_cons]
    rcases List.mem_cons.mp hx with rfl | hx
    · exact toOption_bind_of_none (h s) _
    · cases hy : g s y with
      | error e => rfl
      | ok t => exact ih hx t

section Readers

variable {name : String} {fields : List (Field σ)} {defaults : σ}

def readEntry (fields : List (Field σ)) (s : σ) (e : String × Json) : Except SchemaError σ :=
  match fields.find? fun f => f.name == e.1 with
  | some f => f.update e.2 s
  | none => .ok s

def readItems (fields : List (Field σ)) (items : List Json) (s : σ) : Except SchemaError σ :=
  (fields.zip items).foldlM (fun s e => e.1.update e.2 s) s

theorem readSection_obj (entries : List (String × Json)) :
    readSection name fields defaults (.obj entries) = entries.foldlM (readEntry fields) defaults :=
  rfl

theorem readSection_arr (items : List Json) :
    readSection name fields defaults (.arr items) = readItems fields items defaults >>= fun s =>
      if fields.length < items.length then .error (.tooLong items.length) else .ok s := by
  rw [readSection, readItems]
  refine bind_congr fun s => ?_
  split <;> rfl

theorem readEntry_known {f : Field σ} {key : String}
    (h : fields.find? (fun f => f.name == key) = some f) (v : Json) (s : σ) :
    readEntry fields s (key, v) = f.update v s := by
  simp [readEntry, h]

theorem readEntry_unknown {e : String × Json} (h : e.1 ∉ fields.map Field.name) (s : σ) :
    readEntry fields s e = .ok s := by
  have hnone : fields.find? (fun f => f.name == e.1) = none := by
    rw [List.find?_eq_none]
    intro f hf hfe
    have hname : f.name = e.1 := by simpa using hfe
    exact h (hname ▸ List.mem_map_of_mem hf)
  simp [readEntry, hnone]

theorem readSection_replaceAt {unknown : String} (h : unknown ∉ fields.map Field.name)
    (rest : List Json.Step) (part v : Json) :
    readSection name fields defaults (v.replaceAt (.field unknown :: rest) part) =
      readSection name fields defaults v := by
  cases v with
  | obj entries =>
    rw [Json.replaceAt, readSection_obj, readSection_obj]
    refine foldlM_modifyFirst (fun s e he => ?_) entries defaults
    have hname : e.1 = unknown := by simpa using he
    rw [readEntry_unknown (hname ▸ h), readEntry_unknown (hname ▸ h)]
  | _ => rfl

theorem readSection_of_scalar {v : Json} (h : v.isScalar) :
    (readSection name fields defaults v).toOption = none := by
  cases v with
  | arr items => cases h
  | obj entries => cases h
  | _ => rfl

theorem readSection_of_surplus {items : List Json} (h : fields.length < items.length) :
    (readSection name fields defaults (.arr items)).toOption = none := by
  rw [readSection_arr]
  cases readItems fields items defaults with
  | error e => rfl
  | ok s => simp [h, bind, Except.bind, Except.toOption]

theorem readItems_modify {f : Field σ} {i : Nat} {g : Json → Json} (hf : fields[i]? = some f)
    (h : ∀ v s, f.update (g v) s = f.update v s) (items : List Json) (s : σ) :
    readItems fields (items.modify i g) s = readItems fields items s := by
  induction fields generalizing items i s with
  | nil => simp at hf
  | cons f' fields ih =>
    cases items with
    | nil => simp
    | cons v items =>
      cases i with
      | zero =>
        obtain rfl : f' = f := by simpa using hf
        simp [readItems, h]
      | succ i =>
        have hrest : fields[i]? = some f := by simpa using hf
        simp only [readItems, List.modify_succ_cons, List.zip_cons_cons, List.foldlM_cons]
        exact bind_congr fun t => ih hrest items t

theorem readItems_fails {f : Field σ} {i : Nat} {items : List Json} {v : Json}
    (hf : fields[i]? = some f) (hv : items[i]? = some v)
    (h : ∀ s, (f.update v s).toOption = none) (s : σ) :
    (readItems fields items s).toOption = none := by
  have hmem : (f, v) ∈ fields.zip items :=
    List.mem_of_getElem? (List.getElem?_zip_eq_some.mpr ⟨hf, hv⟩)
  exact foldlM_fails hmem h s

end Readers

/-- A part of the settings reads the names listed for it, by name or by position, and no others; and
nothing can be read from a scalar or from an array that is too long. -/
structure Listed (f : Field Settings) (names : List String) : Prop where
  others : ∀ unknown, unknown ∉ names → ∀ rest part v s,
    f.update (v.replaceAt (.field unknown :: rest) part) s = f.update v s
  scalars : ∀ v s, v.isScalar → (f.update v s).toOption = none
  surplus : ∀ items s, names.length < items.length → (f.update (.arr items) s).toOption = none

theorem toOption_map_of_none {x : Except ε σ} (h : x.toOption = none) (f : σ → α) :
    (x.map f).toOption = none := by
  cases x with
  | error e => rfl
  | ok s => cases h

theorem listed_of_section {name title : String} {fields : List (Field σ)} {defaults : σ}
    {enter : Settings → σ → Settings} :
    Listed (.of name (readSection title fields defaults) enter) (fields.map Field.name) := by
  refine ⟨fun unknown hu rest part v s => ?_, fun v s hv => ?_, fun items s hlong => ?_⟩
  · exact congrArg (Except.map (enter s)) (readSection_replaceAt hu rest part v)
  · exact toOption_map_of_none (readSection_of_scalar hv) _
  · rw [List.length_map] at hlong
    exact toOption_map_of_none (readSection_of_surplus hlong) _

theorem listed_of_getElem? {i : Nat} {f : Field Settings} (h : Settings.fields[i]? = some f) :
    ∃ names, consumed[i]? = some (f.name, names) ∧ Listed f names := by
  match i, h with
  | 0, h => obtain rfl := Option.some.inj h; exact ⟨_, rfl, listed_of_section⟩
  | 1, h => obtain rfl := Option.some.inj h; exact ⟨_, rfl, listed_of_section⟩
  | 2, h => obtain rfl := Option.some.inj h; exact ⟨_, rfl, listed_of_section⟩
  | 3, h => obtain rfl := Option.some.inj h; exact ⟨_, rfl, listed_of_section⟩
  | n + 4, h => cases h

theorem find?_section {name : String} (h : name ∈ Settings.fields.map Field.name) :
    ∃ f names, Settings.fields.find? (fun f => f.name == name) = some f ∧
      (name, names) ∈ consumed ∧ Listed f names := by
  cases hf : Settings.fields.find? (fun f => f.name == name) with
  | none =>
    obtain ⟨f, hmem, rfl⟩ := List.mem_map.mp h
    exact absurd (List.find?_eq_none.mp hf f hmem) (by simp)
  | some f =>
    obtain ⟨i, hi⟩ := List.mem_iff_getElem?.mp (List.mem_of_find?_eq_some hf)
    obtain ⟨names, hnames, hlisted⟩ := listed_of_getElem? hi
    have hname : f.name = name := by simpa using List.find?_some hf
    exact ⟨f, names, rfl, hname ▸ List.mem_of_getElem? hnames, hlisted⟩

/-- Where a leaf in a section is not read, either nothing is made of its place, or the section cannot
be read whatever scalar stands there. -/
theorem Listed.unread {f : Field Settings} {names : List String} (h : Listed f names) {v x : Json}
    {l : Leaf} {start rest : List Json.Step} (hl : l ∈ Json.leavesAt start v)
    (hpath : l.path = start ++ rest)
    (hfield : ∀ key back, rest = .field key :: back → key ∉ names)
    (hindex : ∀ i back, rest = .index i :: back → names.length ≤ i) (hx : x.isScalar) :
    (∀ w s, f.update (w.replaceAt rest x) s = f.update w s) ∨
      ∀ s, (f.update v s).toOption = none ∧ (f.update (v.replaceAt rest x) s).toOption = none := by
  cases rest with
  | nil =>
    rw [List.append_nil] at hpath
    have hscalar : v.isScalar := Json.isScalar_of_mem_leavesAt (hpath ▸ hl)
    exact .inr fun s => ⟨h.scalars v s hscalar, h.scalars x s hx⟩
  | cons step back =>
    cases step with
    | field key => exact .inl fun w s => h.others key (hfield key back rfl) back x w s
    | index i =>
      obtain ⟨items, rfl, hi⟩ := Json.eq_arr_of_mem_leavesAt hl hpath
      have hlong : names.length < items.length := Nat.lt_of_le_of_lt (hindex i back rfl) hi
      refine .inr fun s => ⟨h.surplus items s hlong, h.surplus _ s ?_⟩
      rwa [List.length_modify]

theorem covers_pointer {path : List Json.Step} (h : path ≠ []) (rest : List Json.Step) :
    covers (Json.pointer path) (Json.pointer (path ++ rest)) := by
  have hpath : path.isEmpty = false := by simpa using h
  have hboth : (path ++ rest).isEmpty = false := by simp [h]
  simp only [covers, Json.pointer, hpath, hboth, Bool.false_eq_true, if_false, String.toList_ofList,
    List.flatMap_append, List.drop_left]
  cases rest with
  | nil => simp
  | cons t rest => simp

theorem isConsumed_of_mem {name : String} {names : List String} {key : String}
    (hs : (name, names) ∈ consumed) (hk : key ∈ names) (rest : List Json.Step) :
    isConsumed (Json.pointer (.field name :: .field key :: rest)) := by
  have hlisted : Json.pointer [.field name, .field key] ∈ consumedPointers :=
    List.mem_flatMap.mpr ⟨_, hs, List.mem_map_of_mem hk⟩
  exact List.any_eq_true.mpr ⟨_, hlisted, covers_pointer (List.cons_ne_nil _ _) rest⟩

theorem isConsumed_of_mem_unusedKeys {v : Json} {l : Leaf} (h : l.pointer ∈ unusedKeys v) :
    isConsumed l.pointer = false := by
  have hmem := mem_ascending.mp h
  simpa using (List.mem_filter.mp hmem).2

theorem ofJson_obj_unread {entries : List (String × Json)} {l : Leaf} {x : Json}
    (hl : l ∈ (Json.obj entries).leaves) (hu : isConsumed l.pointer = false)
    (hp : ¬ ReadByPosition l.path) (hx : x.isScalar) :
    (Settings.ofJson ((Json.obj entries).replaceAt l.path x)).toOption =
      (Settings.ofJson (.obj entries)).toOption := by
  obtain ⟨e, he, hle⟩ := Json.mem_fieldLeaves.mp hl
  obtain ⟨rest, hpath⟩ := Json.path_of_mem_leavesAt hle
  simp only [List.nil_append, List.singleton_append] at hle hpath
  rw [← hpath] at hp ⊢
  by_cases hsection : e.1 ∈ Settings.fields.map Field.name
  · obtain ⟨f, names, hfind, hmem, hlisted⟩ := find?_section hsection
    have hfield : ∀ key back, rest = .field key :: back → key ∉ names := by
      rintro key back rfl hkey
      have hread := isConsumed_of_mem hmem hkey back
      rw [hpath] at hread
      exact Bool.false_ne_true (hu.symm.trans hread)
    have hindex : ∀ i back, rest = .index i :: back → names.length ≤ i := by
      rintro i back rfl
      exact Nat.not_lt.mp fun hi => hp ⟨names, hmem, hi⟩
    rw [Settings.ofJson, Json.replaceAt, readSection_obj, readSection_obj]
    rcases hlisted.unread hle hpath.symm hfield hindex hx with hsame | hfails
    · refine congrArg _ (foldlM_modifyFirst (fun s y hy => ?_) entries _)
      obtain ⟨n, w⟩ := y
      obtain rfl : n = e.1 := by simpa using hy
      rw [readEntry_known hfind, readEntry_known hfind]
      exact hsame w s
    · have hbefore : ∀ s, (readEntry Settings.fields s e).toOption = none := by
        intro s
        rw [readEntry_known hfind e.2 s]
        exact (hfails s).1
      have hafter : ∀ s, (readEntry Settings.fields s (e.1, e.2.replaceAt rest x)).toOption = none := by
        intro s
        rw [readEntry_known hfind]
        exact (hfails s).2
      refine Eq.trans ?_ (foldlM_fails he hbefore _).symm
      -- the entry is still there, or its changed form is
      rcases mem_modifyFirst_of_mem (p := fun y => y.1 == e.1)
        (fun y => (y.1, y.2.replaceAt rest x)) he with hkept | ⟨-, hchanged⟩
      · exact foldlM_fails hkept hbefore _
      · exact foldlM_fails hchanged hafter _
  · exact congrArg _ (readSection_replaceAt hsection rest x _)

theorem ofJson_arr_unread {items : List Json} {l : Leaf} {x : Json}
    (hl : l ∈ (Json.arr items).leaves) (hp : ¬ ReadByPosition l.path) (hx : x.isScalar) :
    (Settings.ofJson ((Json.arr items).replaceAt l.path x)).toOption =
      (Settings.ofJson (.arr items)).toOption := by
  obtain ⟨i, v, hv, hlv⟩ := Json.mem_itemLeaves hl
  rw [Nat.zero_add] at hlv
  obtain ⟨rest, hpath⟩ := Json.path_of_mem_leavesAt hlv
  simp only [List.nil_append, List.singleton_append] at hlv hpath
  rw [← hpath] at hp ⊢
  rw [Settings.ofJson, Json.replaceAt]
  cases hf : Settings.fields[i]? with
  | none =>
    have hlong : Settings.fields.length < items.length :=
      Nat.lt_of_le_of_lt (List.getElem?_eq_none_iff.mp hf) (List.getElem?_eq_some_iff.mp hv).1
    rw [readSection_of_surplus hlong, readSection_of_surplus (by rwa [List.length_modify])]
  | some f =>
    obtain ⟨names, hnames, hlisted⟩ := listed_of_getElem? hf
    have hfield : ∀ key back, rest = .field key :: back → key ∉ names := by
      rintro key back rfl hkey
      exact hp ⟨_, hnames, hkey⟩
    have hindex : ∀ j back, rest = .index j :: back → names.length ≤ j := by
      rintro j back rfl
      exact Nat.not_lt.mp fun hj => hp ⟨_, hnames, hj⟩
    rw [readSection_arr, readSection_arr, List.length_modify]
    rcases hlisted.unread hlv hpath.symm hfield hindex hx with hsame | hfails
    · rw [readItems_modify hf hsame]
    · have hchanged : (items.modify i (·.replaceAt rest x))[i]? = some (v.replaceAt rest x) := by
        simp [hv]
      rw [toOption_bind_of_none (readItems_fails hf hchanged (fun s => (hfails s).2) _),
        toOption_bind_of_none (readItems_fails hf hv (fun s => (hfails s).1) _)]

/-- A leaf that is reported as unused and is not read by position can be any scalar: the settings that
are read are the same, or none can be read either way. -/
theorem ofJson_unused_leaf {v : Json} {l : Leaf} {x : Json} (hl : l ∈ v.leaves)
    (hu : l.pointer ∈ unusedKeys v) (hp : ¬ ReadByPosition l.path) (hx : x.isScalar) :
    (Settings.ofJson (v.replaceAt l.path x)).toOption = (Settings.ofJson v).toOption := by
  cases v with
  | arr items => exact ofJson_arr_unread hl hp hx
  | obj entries => exact ofJson_obj_unread hl (isConsumed_of_mem_unusedKeys hu) hp hx
  | _ =>
    obtain rfl : l = ⟨[], _⟩ := by simpa [Json.leaves, Json.leavesAt] using hl
    rw [Json.replaceAt, Settings.ofJson, readSection_of_scalar hx, readSection_of_scalar rfl]

theorem ofJson_unknown_name :
    let v : Json := .obj [("logging", .obj [("colour", .str "red"), ("level", .str "debug")])]
    (Settings.ofJson (v.replaceAt [.field "logging", .field "colour"] (.int 7))).toOption =
        (Settings.ofJson v).toOption ∧
      (Settings.ofJson v).toOption = some { logging := { level := "debug" } } := by
  intro v
  have hunused : Json.pointer [.field "logging", .field "colour"] ∈ unusedKeys v := by
    rw [unusedKeys, mem_ascending, List.mem_filter]
    exact ⟨.head _, by decide +kernel⟩
  exact ⟨ofJson_unused_leaf (l := ⟨_, .str "red"⟩) (.head _) hunused id rfl, rfl⟩

/-- An array shows that by position more is read than the report says. -/
theorem ofJson_positional_leaf :
    let v : Json := .obj [("reconcile", .arr [.str "Friends"])]
    let l : Leaf := ⟨[.field "reconcile", .index 0], .str "Friends"⟩
    l ∈ v.leaves ∧ l.pointer ∈ unusedKeys v ∧ (Json.str "Others").isScalar ∧
      (Settings.ofJson (v.replaceAt l.path (.str "Others"))).toOption ≠
        (Settings.ofJson v).toOption := by
  intro v l
  have hunused : l.pointer ∈ unusedKeys v := by
    rw [unusedKeys, mem_ascending, List.mem_filter]
    exact ⟨.head _, by decide +kernel⟩
  have hbefore : (Settings.ofJson v).toOption =
      some { reconcile := { defaultGroupName := "Friends" } } := rfl
  have hafter : (Settings.ofJson (v.replaceAt l.path (.str "Others"))).toOption =
      some { reconcile := { defaultGroupName := "Others" } } := rfl
  refine ⟨.head _, hunused, rfl, ?_⟩
  rw [hbefore, hafter]
  decide

end Regroup.Config
