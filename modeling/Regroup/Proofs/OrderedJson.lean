import Mathlib.Data.String.Basic
import Mathlib.Data.List.Basic
import Regroup.Yaml.Value

/-! Objects whose fields stand in ascending order, at every depth. Such an object is told by what its
names look up, so that merges can be compared name by name instead of as lists; everything that is
read from a document is ordered. -/

namespace Regroup.Json

inductive Ordered : Json → Prop where
  | null : Ordered .null
  | bool (b : Bool) : Ordered (.bool b)
  | int (n : Int) : Ordered (.int n)
  | float (d : Double) : Ordered (.float d)
  | str (s : String) : Ordered (.str s)
  | arr {items : List Json} (parts : ∀ v ∈ items, Ordered v) : Ordered (.arr items)
  | obj {fields : List (String × Json)} (names : (fields.map Prod.fst).Pairwise (· < ·))
      (parts : ∀ f ∈ fields, Ordered f.2) : Ordered (.obj fields)

theorem lookup_field (l key : String) (w : Json) (rest : List (String × Json)) :
    ((l, w) :: rest).lookup key = if key = l then some w else rest.lookup key := by
  by_cases h : key = l
  · simp [h]
  · have hne : (key == l) = false := by simpa using h
    simp [List.lookup_cons, hne, h]

/-- What a list of fields looks up once a field is entered, whatever the list. -/
theorem lookup_insertField (fields : List (String × Json)) (name key : String) (v : Json) :
    (insertField fields name v).lookup key = if key = name then some v else fields.lookup key := by
  induction fields with
  | nil => simp [insertField, lookup_field]
  | cons f rest ih =>
    obtain ⟨l, w⟩ := f
    by_cases hlt : name < l
    · simp [insertField, hlt, lookup_field]
    · by_cases heq : name = l
      · subst heq
        by_cases h : key = name <;> simp [insertField, lookup_field, h]
      · by_cases h : key = l
        · subst h
          simp [insertField, hlt, heq, Ne.symm heq]
        · simp [insertField, hlt, heq, lookup_field, h, ih]

theorem lookup_eq_none_of_not_mem {fields : List (String × Json)} {name : String}
    (h : name ∉ fields.map Prod.fst) : fields.lookup name = none := by
  rw [List.lookup_eq_none_iff]
  intro f hf
  have hne : name ≠ f.1 := fun he => h (he ▸ List.mem_map_of_mem hf)
  simpa using hne

theorem mem_of_lookup_eq_some {fields : List (String × Json)} {name : String} {v : Json}
    (h : fields.lookup name = some v) : (name, v) ∈ fields := by
  obtain ⟨before, after, rfl, -⟩ := List.lookup_eq_some_iff.mp h
  exact List.mem_append_right before List.mem_cons_self

theorem lookup_eq_some_iff_mem {fields : List (String × Json)} {name : String} {v : Json}
    (h : (fields.map Prod.fst).Nodup) : fields.lookup name = some v ↔ (name, v) ∈ fields := by
  refine ⟨mem_of_lookup_eq_some, fun hmem => ?_⟩
  induction fields with
  | nil => simp at hmem
  | cons f rest ih =>
    obtain ⟨l, w⟩ := f
    rw [List.map_cons, List.nodup_cons] at h
    rw [lookup_field]
    rcases List.mem_cons.mp hmem with heq | hmem
    · obtain ⟨rfl, rfl⟩ := Prod.mk.inj heq
      rw [if_pos rfl]
    · have hname : name ∈ rest.map Prod.fst := List.mem_map_of_mem hmem
      have hne : name ≠ l := by
        rintro rfl
        exact h.1 hname
      rw [if_neg hne, ih h.2 hmem]

theorem mem_insertField {fields : List (String × Json)} {name : String} {v : Json}
    {f : String × Json} (h : f ∈ insertField fields name v) : f = (name, v) ∨ f ∈ fields := by
  induction fields with
  | nil => simpa [insertField] using h
  | cons g rest ih =>
    obtain ⟨l, w⟩ := g
    simp only [insertField] at h
    split at h
    · simpa using h
    · split at h
      · rcases List.mem_cons.mp h with h | h
        · exact .inl h
        · exact .inr (List.mem_cons_of_mem _ h)
      · rcases List.mem_cons.mp h with h | h
        · exact .inr (by simp [h])
        · rcases ih h with h | h
          · exact .inl h
          · exact .inr (List.mem_cons_of_mem _ h)

theorem names_insertField {fields : List (String × Json)}
    (h : (fields.map Prod.fst).Pairwise (· < ·)) (name : String) (v : Json) :
    ((insertField fields name v).map Prod.fst).Pairwise (· < ·) := by
  induction fields with
  | nil => simp [insertField]
  | cons f rest ih =>
    obtain ⟨l, w⟩ := f
    rw [List.map_cons, List.pairwise_cons] at h
    simp only [insertField]
    split
    · rename_i hlt
      refine List.pairwise_cons.mpr ⟨?_, List.pairwise_cons.mpr h⟩
      intro n hn
      rcases List.mem_cons.mp hn with rfl | hn
      · exact hlt
      · exact hlt.trans (h.1 n hn)
    · rename_i hlt
      split
      · rename_i heq
        subst heq
        exact List.pairwise_cons.mpr h
      · rename_i heq
        have hl : l < name := lt_of_le_of_ne (not_lt.mp hlt) (Ne.symm heq)
        refine List.pairwise_cons.mpr ⟨?_, ih h.2⟩
        intro n hn
        obtain ⟨f, hf, rfl⟩ := List.mem_map.mp hn
        rcases mem_insertField hf with rfl | hf
        · exact hl
        · exact h.1 _ (List.mem_map_of_mem hf)

theorem fields_ext {fields others : List (String × Json)}
    (hf : (fields.map Prod.fst).Pairwise (· < ·)) (ho : (others.map Prod.fst).Pairwise (· < ·))
    (h : ∀ name, fields.lookup name = others.lookup name) : fields = others := by
  induction fields generalizing others with
  | nil =>
    cases others with
    | nil => rfl
    | cons o rest =>
      have hnone := h o.1
      simp [lookup_field o.1 o.1 o.2] at hnone
  | cons f rest ih =>
    cases others with
    | nil =>
      have hnone := h f.1
      simp [lookup_field f.1 f.1 f.2] at hnone
    | cons o more =>
      obtain ⟨l, v⟩ := f
      obtain ⟨k, w⟩ := o
      rw [List.map_cons, List.pairwise_cons] at hf ho
      -- the first name of either list is in the other one, and it is the least of both
      have hle : ¬ l < k := by
        intro hlt
        have hne : ¬ l = k := ne_of_lt hlt
        have hsome : more.lookup l = some v := by simpa [lookup_field, hne] using (h l).symm
        have hmem := List.mem_map_of_mem (f := Prod.fst) (mem_of_lookup_eq_some hsome)
        exact lt_asymm hlt (ho.1 l hmem)
      have hge : ¬ k < l := by
        intro hlt
        have hne : ¬ k = l := ne_of_lt hlt
        have hsome : rest.lookup k = some w := by simpa [lookup_field, hne] using h k
        have hmem := List.mem_map_of_mem (f := Prod.fst) (mem_of_lookup_eq_some hsome)
        exact lt_asymm hlt (hf.1 k hmem)
      have hlk : l = k := le_antisymm (not_lt.mp hge) (not_lt.mp hle)
      subst hlk
      have hvw : v = w := by simpa using h l
      subst hvw
      have hrest : rest = more := by
        refine ih hf.2 ho.2 fun name => ?_
        by_cases hname : name = l
        · subst hname
          rw [lookup_eq_none_of_not_mem fun hm => lt_irrefl _ (hf.1 _ hm),
            lookup_eq_none_of_not_mem fun hm => lt_irrefl _ (ho.1 _ hm)]
        · simpa [lookup_field, hname] using h name
      rw [hrest]

theorem Ordered.of_lookup {fields : List (String × Json)} {name : String} {v : Json}
    (h : Ordered (.obj fields)) (hv : fields.lookup name = some v) : v.Ordered := by
  cases h with
  | obj _ parts => exact parts _ (mem_of_lookup_eq_some hv)

theorem Ordered.insertField {fields : List (String × Json)} (h : Ordered (.obj fields))
    (name : String) {v : Json} (hv : v.Ordered) : Ordered (.obj (insertField fields name v)) := by
  cases h with
  | obj names parts =>
    refine .obj (names_insertField names name v) ?_
    intro f hf
    rcases mem_insertField hf with rfl | hf
    · exact hv
    · exact parts f hf

/-- A property that the fields of an object share and that is kept when a field is entered. -/
structure Inherited (P : Json → Prop) : Prop where
  null : P .null
  empty : P (.obj [])
  part : ∀ {fields : List (String × Json)} {f}, P (.obj fields) → f ∈ fields → P f.2
  insert : ∀ {fields : List (String × Json)} (name : String) {v}, P (.obj fields) → P v →
    P (.obj (insertField fields name v))

theorem Inherited.ofFields {P : Json → Prop} (hP : Inherited P) {fields : List (String × Json)}
    (h : ∀ f ∈ fields, P f.2) : P (ofFields fields) := by
  have hfold : ∀ base : List (String × Json), P (.obj base) →
      P (.obj (fields.foldl (fun fs f => Json.insertField fs f.1 f.2) base)) := by
    induction fields with
    | nil => exact fun base hb => hb
    | cons f rest ih =>
      intro base hb
      obtain ⟨hf, hrest⟩ := List.forall_mem_cons.mp h
      exact ih hrest _ (hP.insert f.1 hb hf)
  exact hfold [] hP.empty

theorem inherited_ordered : Inherited Ordered where
  null := .null
  empty := .obj .nil (List.forall_mem_nil _)
  part h hf := by
    cases h with
    | obj _ parts => exact parts _ hf
  insert name _ h hv := h.insertField name hv

theorem ordered_ofFields {fields : List (String × Json)} (h : ∀ f ∈ fields, f.2.Ordered) :
    (ofFields fields).Ordered :=
  inherited_ordered.ofFields h

end Regroup.Json

namespace Regroup.Yaml.Value

mutual

theorem ordered_of_toJson? : ∀ {v : Value} {j : Json}, v.toJson? = some j → j.Ordered
  | .null, j, h => by simp only [toJson?, Option.some.injEq] at h; exact h ▸ .null
  | .bool b, j, h => by simp only [toJson?, Option.some.injEq] at h; exact h ▸ .bool b
  | .number (.int n), j, h => by simp only [toJson?, Option.some.injEq] at h; exact h ▸ .int n
  | .number (.float d), j, h => by simp only [toJson?, Option.some.injEq] at h; exact h ▸ .float d
  | .number (.infinity _), j, h => by simp only [toJson?, Option.some.injEq] at h; exact h ▸ .null
  | .number .nan, j, h => by simp only [toJson?, Option.some.injEq] at h; exact h ▸ .null
  | .str s, j, h => by simp only [toJson?, Option.some.injEq] at h; exact h ▸ .str s
  | .seq items, j, h => by
    simp only [toJson?, Option.map_eq_some_iff] at h
    obtain ⟨js, hjs, rfl⟩ := h
    exact .arr (ordered_of_itemsToJson? hjs)
  | .map entries, j, h => by
    simp only [toJson?, Option.map_eq_some_iff] at h
    obtain ⟨fields, hfields, rfl⟩ := h
    exact Json.ordered_ofFields (ordered_of_entriesToJson? hfields)
  | .tagged tag v, j, h => by
    simp only [toJson?, Option.map_eq_some_iff] at h
    obtain ⟨i, hi, rfl⟩ := h
    have hi' := ordered_of_toJson? hi
    exact .obj (by simp) (by simpa using hi')

theorem ordered_of_itemsToJson? : ∀ {items : List Value} {js : List Json},
    itemsToJson? items = some js → ∀ j ∈ js, j.Ordered
  | [], js, h => by
    simp only [itemsToJson?, Option.some.injEq] at h
    simp [← h]
  | v :: rest, js, h => by
    simp only [itemsToJson?, Option.bind_eq_bind, Option.bind_eq_some_iff, Option.pure_def,
      Option.some.injEq] at h
    obtain ⟨i, hi, is, his, rfl⟩ := h
    have hhead := ordered_of_toJson? hi
    have hrest := ordered_of_itemsToJson? his
    simpa using ⟨hhead, hrest⟩

theorem ordered_of_entriesToJson? : ∀ {entries : List (Value × Value)}
    {fields : List (String × Json)}, entriesToJson? entries = some fields →
    ∀ f ∈ fields, f.2.Ordered
  | [], fields, h => by
    simp only [entriesToJson?, Option.some.injEq] at h
    simp [← h]
  | (k, v) :: rest, fields, h => by
    simp only [entriesToJson?, Option.bind_eq_bind, Option.bind_eq_some_iff, Option.pure_def,
      Option.some.injEq] at h
    obtain ⟨name, -, i, hi, more, hmore, rfl⟩ := h
    have hhead := ordered_of_toJson? hi
    have hrest := ordered_of_entriesToJson? hmore
    intro f hf
    rcases List.mem_cons.mp hf with rfl | hf
    · exact hhead
    · exact hrest f hf

end

end Regroup.Yaml.Value
