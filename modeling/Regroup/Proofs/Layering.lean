import Mathlib.Data.List.Induction
import Regroup.Config.Layers
import Regroup.Proofs.OrderedJson

/-! What a configuration holds at a path after its layers are merged. A layer decides a path when it
has something there or something other than an object on the way; merging asks the last layer that
decides. Merging is not associative, so the layers are taken off from the last one. -/

namespace Regroup.Json

/-- What is reached by following names. -/
def at? : Json → List String → Option Json
  | v, [] => some v
  | v, name :: path => (v.field? name).bind (·.at? path)

def isObject : Json → Bool
  | .obj _ => true
  | _ => false

/-- The value has something at the path, or something other than an object on the way to it. -/
def Decides (v : Json) (path : List String) : Prop :=
  (v.at? path).isSome ∨
    ∃ front back x, path = front ++ back ∧ back ≠ [] ∧ v.at? front = some x ∧ x.isObject = false

@[simp] theorem at?_nil (v : Json) : v.at? [] = some v := rfl

@[simp] theorem at?_cons (v : Json) (name : String) (path : List String) :
    v.at? (name :: path) = (v.field? name).bind (·.at? path) := rfl

@[simp] theorem decides_nil (v : Json) : v.Decides [] := .inl rfl

theorem field?_eq_none {v : Json} (h : v.isObject = false) (name : String) :
    v.field? name = none := by
  cases v with
  | obj fields => cases h
  | _ => rfl

theorem decides_cons {v : Json} {name : String} {path : List String} :
    v.Decides (name :: path) ↔
      v.isObject = false ∨ ∃ w, v.field? name = some w ∧ w.Decides path := by
  constructor
  · rintro (h | ⟨front, back, x, hpath, hback, hx, hobj⟩)
    · obtain ⟨y, hy⟩ := Option.isSome_iff_exists.mp h
      obtain ⟨w, hw, hwy⟩ := Option.bind_eq_some_iff.mp hy
      exact .inr ⟨w, hw, .inl (by simp [hwy])⟩
    · cases front with
      | nil =>
        obtain rfl : v = x := by simpa using hx
        exact .inl hobj
      | cons n front =>
        obtain ⟨rfl, hrest⟩ : name = n ∧ path = front ++ back := by simpa using hpath
        obtain ⟨w, hw, hwx⟩ := Option.bind_eq_some_iff.mp hx
        exact .inr ⟨w, hw, .inr ⟨front, back, x, hrest, hback, hwx, hobj⟩⟩
  · rintro (hobj | ⟨w, hw, h | ⟨front, back, x, rfl, hback, hx, hobj⟩⟩)
    · exact .inr ⟨[], name :: path, v, rfl, by simp, rfl, hobj⟩
    · exact .inl (by simpa [hw] using h)
    · exact .inr ⟨name :: front, back, x, rfl, hback, by simpa [hw] using hx, hobj⟩

theorem at?_eq_none_of_not_decides {v : Json} {path : List String} (h : ¬ v.Decides path) :
    v.at? path = none := by
  by_contra hne
  exact h (.inl (Option.ne_none_iff_isSome.mp hne))

theorem null_merge (v : Json) : Json.null.merge v = v := by
  cases v <;> simp [merge]

theorem merge_of_not_object (base : Json) {v : Json} (h : v.isObject = false) :
    base.merge v = v := by
  cases v with
  | obj fields => cases h
  | _ => simp [merge]

theorem lookup_mergeFields (base : List (String × Json)) {fields : List (String × Json)}
    (h : (fields.map Prod.fst).Pairwise (· < ·)) (key : String) :
    (mergeFields base fields).lookup key =
      match fields.lookup key with
      | some v => some (((base.lookup key).getD .null).merge v)
      | none => base.lookup key := by
  induction fields generalizing base with
  | nil => simp [mergeFields]
  | cons f rest ih =>
    obtain ⟨name, v⟩ := f
    rw [List.map_cons, List.pairwise_cons] at h
    rw [mergeFields, ih _ h.2, lookup_insertField, lookup_field]
    by_cases hkey : key = name
    · subst hkey
      have hrest : rest.lookup key = none :=
        lookup_eq_none_of_not_mem fun hm => lt_irrefl _ (h.1 _ hm)
      simp [hrest]
    · simp [hkey]

theorem field?_merge (base : Json) {layer : Json} (hl : layer.Ordered) (ho : layer.isObject)
    (name : String) :
    (base.merge layer).field? name =
      match layer.field? name with
      | some v => some (((base.field? name).getD .null).merge v)
      | none => base.field? name := by
  cases hl with
  | @obj fields names parts =>
    cases base with
    | obj below => simpa [merge, field?] using lookup_mergeFields below names name
    | _ => cases hv : fields.lookup name <;> simp [merge, field?, hv, null_merge]
  | _ => cases ho

theorem field?_ofFields (fields : List (String × Json)) (name : String) :
    (ofFields fields).field? name = fields.reverse.lookup name := by
  induction fields using List.reverseRecOn with
  | nil => rfl
  | append_singleton fields f ih =>
    rw [List.reverse_append, List.reverse_singleton, List.singleton_append, lookup_field, ← ih]
    simp only [ofFields, field?, List.foldl_append, List.foldl_cons, List.foldl_nil]
    exact lookup_insertField _ f.1 name f.2

theorem Ordered.of_field? {v w : Json} {name : String} (h : v.Ordered)
    (hw : v.field? name = some w) : w.Ordered := by
  cases v with
  | obj fields => exact h.of_lookup hw
  | _ => cases hw

theorem at?_getD_null (v : Option Json) {path : List String} (h : path ≠ []) :
    (v.getD .null).at? path = v.bind (·.at? path) := by
  cases v with
  | some v => rfl
  | none =>
    cases path with
    | nil => exact absurd rfl h
    | cons name path => rfl

theorem at?_merge_of_not_decides (base : Json) {layer : Json} (hl : layer.Ordered)
    {path : List String} (h : ¬ layer.Decides path) :
    (base.merge layer).at? path = base.at? path := by
  induction path generalizing base layer with
  | nil => exact absurd (decides_nil layer) h
  | cons name path ih =>
    have ho : layer.isObject = true := by
      by_contra hne
      exact h (decides_cons.mpr (.inl (by simpa using hne)))
    rw [at?_cons, at?_cons, field?_merge base hl ho]
    cases hw : layer.field? name with
    | none => rfl
    | some w =>
      have hwd : ¬ w.Decides path := fun hd => h (decides_cons.mpr (.inr ⟨w, hw, hd⟩))
      -- so the null that stands for a missing field has nothing at the rest of the path
      have hpath : path ≠ [] := fun he => hwd (he ▸ decides_nil w)
      have hin := ih ((base.field? name).getD .null) (hl.of_field? hw) hwd
      rw [at?_getD_null _ hpath] at hin
      simpa using hin

theorem at?_merge_of_decides (base : Json) {layer : Json} (hl : layer.Ordered)
    {path : List String} (h : layer.Decides path) :
    (base.merge layer).at? path =
      (layer.at? path).map (((base.at? path).getD .null).merge ·) := by
  induction path generalizing base layer with
  | nil => rfl
  | cons name path ih =>
    by_cases ho : layer.isObject
    · obtain ⟨w, hw, hwd⟩ : ∃ w, layer.field? name = some w ∧ w.Decides path := by
        simpa [decides_cons, ho] using h
      have hin := ih ((base.field? name).getD .null) (hl.of_field? hw) hwd
      rw [at?_cons, at?_cons, at?_cons, field?_merge base hl ho, hw]
      by_cases hpath : path = []
      · subst hpath
        cases base.field? name <;> rfl
      · rw [at?_getD_null _ hpath] at hin
        simpa using hin
    · have hobj : layer.isObject = false := by simpa using ho
      rw [merge_of_not_object base hobj, at?_cons, field?_eq_none hobj]
      rfl

theorem at?_merge_eq_some_iff (base : Json) {layer : Json} (hl : layer.Ordered)
    {path : List String} {x : Json} (hx : x.isObject = false) :
    (base.merge layer).at? path = some x ↔
      layer.at? path = some x ∨ ¬ layer.Decides path ∧ base.at? path = some x := by
  by_cases h : layer.Decides path
  · rw [at?_merge_of_decides base hl h]
    simp only [h, not_true_eq_false, false_and, or_false, Option.map_eq_some_iff]
    constructor
    · rintro ⟨y, hy, rfl⟩
      have hyo : y.isObject = false := by
        cases y with
        | obj fields => cases hb : (base.at? path).getD .null <;> simp [hb, merge, isObject] at hx
        | _ => rfl
      rw [hy, merge_of_not_object _ hyo]
    · intro hy
      exact ⟨x, hy, merge_of_not_object _ hx⟩
  · rw [at?_merge_of_not_decides base hl h]
    simp [h, at?_eq_none_of_not_decides h]

mutual

theorem Inherited.merge {P : Json → Prop} (hP : Inherited P) {base : Json} (hb : P base) :
    ∀ {layer : Json}, P layer → P (base.merge layer)
  | .obj fields, hl => by
    cases base with
    | obj below =>
      rw [Json.merge]
      exact hP.mergeFields hb fun f hf => hP.part hl hf
    | _ => exact hl
  | .null, hl => hl
  | .bool _, hl => hl
  | .int _, hl => hl
  | .float _, hl => hl
  | .str _, hl => hl
  | .arr _, hl => hl

theorem Inherited.mergeFields {P : Json → Prop} (hP : Inherited P) {base : List (String × Json)}
    (hb : P (.obj base)) :
    ∀ {fields : List (String × Json)}, (∀ f ∈ fields, P f.2) → P (.obj (mergeFields base fields))
  | [], _ => hb
  | (name, v) :: rest, h => by
    obtain ⟨hv, hrest⟩ := List.forall_mem_cons.mp h
    have hbelow : P ((base.lookup name).getD .null) := by
      cases hw : base.lookup name with
      | none => exact hP.null
      | some w => exact hP.part hb (mem_of_lookup_eq_some hw)
    rw [Json.mergeFields]
    exact hP.mergeFields (hP.insert name hb (hP.merge hbelow hv)) hrest

end

theorem Ordered.merge {layer : Json} (hl : layer.Ordered) {base : Json} (hb : base.Ordered) :
    (base.merge layer).Ordered :=
  inherited_ordered.merge hb hl

theorem Ordered.ext {v w : Json} (hv : v.Ordered) (hw : w.Ordered) (hvo : v.isObject)
    (hwo : w.isObject) (h : ∀ name, v.field? name = w.field? name) : v = w := by
  cases hv with
  | obj names _ =>
    cases hw with
    | obj others _ => exact congrArg Json.obj (fields_ext names others h)
    | _ => cases hwo
  | _ => cases hvo

theorem isObject_merge (base : Json) {layer : Json} (h : layer.isObject) :
    (base.merge layer).isObject := by
  cases layer with
  | obj fields => cases base <;> rfl
  | _ => cases h

theorem merge_merge {layer : Json} (hl : layer.Ordered) {base : Json} (hb : base.Ordered) :
    (base.merge layer).merge layer = base.merge layer := by
  induction hl generalizing base with
  | @obj fields names parts ih =>
    have hl : Ordered (.obj fields) := .obj names parts
    have hm := hl.merge hb
    -- field by field, since the two lists come about in different ways
    refine (hl.merge hm).ext hm (isObject_merge _ rfl) (isObject_merge _ rfl) fun name => ?_
    rw [field?_merge _ hl rfl, field?_merge base hl rfl]
    cases hv : (Json.obj fields).field? name with
    | none => rfl
    | some v =>
      have hbelow : ((base.field? name).getD .null).Ordered := by
        cases hw : base.field? name with
        | none => exact .null
        | some w => exact hb.of_field? hw
      exact congrArg some (ih _ (mem_of_lookup_eq_some hv) hbelow)
  | _ => simp [Json.merge]

/-- The last of some values that decides a path holds this there. -/
def LastWrites (values : List Json) (path : List String) (x : Json) : Prop :=
  ∃ earlier layer later, values = earlier ++ layer :: later ∧ layer.at? path = some x ∧
    ∀ l ∈ later, ¬ l.Decides path

theorem lastWrites_concat {values : List Json} {v : Json} {path : List String} {x : Json} :
    LastWrites (values ++ [v]) path x ↔
      v.at? path = some x ∨ ¬ v.Decides path ∧ LastWrites values path x := by
  constructor
  · rintro ⟨earlier, layer, later, hsplit, hx, hlater⟩
    rcases List.eq_nil_or_concat later with rfl | ⟨front, last, rfl⟩
    · obtain ⟨-, hv⟩ := List.append_inj' hsplit rfl
      obtain rfl : v = layer := by simpa using hv
      exact .inl hx
    · have hcut : values ++ [v] = (earlier ++ layer :: front) ++ [last] := by simpa using hsplit
      obtain ⟨hvalues, hv⟩ := List.append_inj' hcut rfl
      obtain rfl : v = last := by simpa using hv
      exact .inr ⟨hlater v (by simp),
        earlier, layer, front, hvalues, hx, fun l hl => hlater l (by simp [hl])⟩
  · rintro (hx | ⟨hv, earlier, layer, later, rfl, hx, hlater⟩)
    · exact ⟨values, v, [], rfl, hx, by simp⟩
    · refine ⟨earlier, layer, later ++ [v], by simp, hx, ?_⟩
      intro l hl
      rcases List.mem_append.mp hl with hl | hl
      · exact hlater l hl
      · obtain rfl : l = v := by simpa using hl
        exact hv

theorem Inherited.foldl_merge {P : Json → Prop} (hP : Inherited P) {values : List Json}
    (h : ∀ v ∈ values, P v) {base : Json} (hb : P base) : P (values.foldl Json.merge base) := by
  induction values generalizing base with
  | nil => exact hb
  | cons v rest ih =>
    obtain ⟨hv, hrest⟩ := List.forall_mem_cons.mp h
    exact ih hrest (hP.merge hb hv)

theorem ordered_foldl_merge {values : List Json} (h : ∀ v ∈ values, v.Ordered) {base : Json}
    (hb : base.Ordered) : (values.foldl merge base).Ordered :=
  inherited_ordered.foldl_merge h hb

theorem at?_foldl_merge {values : List Json} (h : ∀ v ∈ values, v.Ordered) {path : List String}
    {x : Json} (hx : x.isObject = false) :
    (values.foldl merge (.obj [])).at? path = some x ↔ LastWrites values path x := by
  induction values using List.reverseRecOn with
  | nil =>
    have hnone : ¬ LastWrites [] path x := by
      rintro ⟨earlier, layer, later, hsplit, -⟩
      simp at hsplit
    simp only [hnone, iff_false, List.foldl_nil]
    cases path with
    | nil =>
      rintro h
      obtain rfl : Json.obj [] = x := by simpa using h
      cases hx
    | cons name path => simp [field?]
  | append_singleton values v ih =>
    have hv : v.Ordered := h v (by simp)
    rw [List.foldl_append, List.foldl_cons, List.foldl_nil, at?_merge_eq_some_iff _ hv hx,
      lastWrites_concat, ih fun w hw => h w (by simp [hw])]

end Regroup.Json

namespace Regroup.Config

open Yaml (Value)

def mergeLayers (layers : List Value) : Except LoadError Json := layers.foldlM addLayer (.obj [])

/-- What the layers that are not null say as JSON. -/
def layerValues? (layers : List Value) : Option (List Json) :=
  (layers.filter fun l => !l.isNull).mapM Value.toJson?

theorem ofLayers_eq (layers : List Value) : ofLayers layers = mergeLayers layers >>= guardSecrets :=
  rfl

theorem foldlM_of_mapM {step : Json → String → Except LoadError Json} {texts : List String}
    {layers : List Value} (h : texts.mapM Value.ofText? = some layers) (base : Json)
    (hstep : ∀ base s layer, Value.ofText? s = some layer → step base s = addLayer base layer) :
    texts.foldlM step base = layers.foldlM addLayer base := by
  induction texts generalizing layers base with
  | nil =>
    obtain rfl : [] = layers := by simpa using h
    rfl
  | cons s rest ih =>
    simp only [List.mapM_cons, Option.bind_eq_bind, Option.bind_eq_some_iff, Option.pure_def,
      Option.some.injEq] at h
    obtain ⟨layer, hs, more, hmore, rfl⟩ := h
    rw [List.foldlM_cons, List.foldlM_cons, hstep base s layer hs]
    exact bind_congr fun next => ih hmore next

theorem ofTexts_eq {texts : List String} {layers : List Value}
    (h : texts.mapM Value.ofText? = some layers) : ofTexts texts = ofLayers layers := by
  unfold ofTexts ofLayers
  rw [foldlM_of_mapM h]
  intro base s layer hs
  rw [hs]

theorem addLayer_null (base : Json) {layer : Value} (h : layer.isNull) :
    addLayer base layer = .ok base := by
  simp [addLayer, h]

theorem addLayer_eq (base : Json) {layer : Value} {v : Json} (h : layer.isNull = false)
    (hv : layer.toJson? = some v) : addLayer base layer = .ok (base.merge v) := by
  simp [addLayer, h, hv]

theorem layerValues?_cons_of_null {layer : Value} (h : layer.isNull) (rest : List Value) :
    layerValues? (layer :: rest) = layerValues? rest := by
  simp [layerValues?, h]

theorem layerValues?_cons {layer : Value} (h : layer.isNull = false) (rest : List Value) :
    layerValues? (layer :: rest) =
      layer.toJson?.bind fun v => (layerValues? rest).map (v :: ·) := by
  simp only [layerValues?, h, Bool.not_false, List.filter_cons_of_pos, List.mapM_cons,
    Option.bind_eq_bind, Option.pure_def, Option.map_eq_bind]
  rfl

theorem foldlM_addLayer (layers : List Value) (base : Json) :
    layers.foldlM addLayer base = match layerValues? layers with
      | some values => .ok (values.foldl Json.merge base)
      | none => .error .notJson := by
  induction layers generalizing base with
  | nil => rfl
  | cons layer rest ih =>
    by_cases hn : layer.isNull
    · rw [List.foldlM_cons, layerValues?_cons_of_null hn, addLayer_null base hn]
      exact ih base
    · have hn' : layer.isNull = false := by simpa using hn
      rw [List.foldlM_cons, layerValues?_cons hn']
      cases hv : layer.toJson? with
      | none => simp [addLayer, hn', hv, bind, Except.bind]
      | some v =>
        have hrest := ih (base.merge v)
        rw [addLayer_eq base hn' hv]
        cases hvalues : layerValues? rest <;> (rw [hvalues] at hrest; exact hrest)

theorem exists_layer_of_mem {layers : List Value} {values : List Json} {v : Json}
    (h : layerValues? layers = some values) (hv : v ∈ values) :
    ∃ l ∈ layers, l.toJson? = some v := by
  induction layers generalizing values with
  | nil =>
    obtain rfl : [] = values := by simpa [layerValues?] using h
    cases hv
  | cons layer rest ih =>
    by_cases hn : layer.isNull
    · obtain ⟨l, hl, hlv⟩ := ih ((layerValues?_cons_of_null hn rest).symm.trans h) hv
      exact ⟨l, List.mem_cons_of_mem _ hl, hlv⟩
    · have hn' : layer.isNull = false := by simpa using hn
      rw [layerValues?_cons hn'] at h
      obtain ⟨w, hw, hmap⟩ := Option.bind_eq_some_iff.mp h
      obtain ⟨more, hmore, rfl⟩ := Option.map_eq_some_iff.mp hmap
      rcases List.mem_cons.mp hv with rfl | hv
      · exact ⟨layer, List.mem_cons_self, hw⟩
      · obtain ⟨l, hl, hlv⟩ := ih hmore hv
        exact ⟨l, List.mem_cons_of_mem _ hl, hlv⟩

theorem ordered_of_layerValues? {layers : List Value} {values : List Json}
    (h : layerValues? layers = some values) : ∀ v ∈ values, v.Ordered := by
  intro v hv
  obtain ⟨l, -, hl⟩ := exists_layer_of_mem h hv
  exact Value.ordered_of_toJson? hl

theorem mergeLayers_eq (layers : List Value) :
    mergeLayers layers = match layerValues? layers with
      | some values => .ok (values.foldl Json.merge (.obj []))
      | none => .error .notJson :=
  foldlM_addLayer layers (.obj [])

/-- What merging keeps is true of merged layers if it is true of each of them. -/
theorem of_mergeLayers {P : Json → Prop} (hP : Json.Inherited P) {layers : List Value} {merged : Json}
    (hl : ∀ l ∈ layers, ∀ v, l.toJson? = some v → P v) (h : mergeLayers layers = .ok merged) :
    P merged := by
  rw [mergeLayers_eq] at h
  cases hvalues : layerValues? layers with
  | none => simp [hvalues] at h
  | some values =>
    obtain rfl : values.foldl Json.merge (.obj []) = merged := by simpa [hvalues] using h
    refine hP.foldl_merge (fun v hv => ?_) hP.empty
    obtain ⟨l, hmem, hlv⟩ := exists_layer_of_mem hvalues hv
    exact hl l hmem v hlv

theorem ordered_of_mergeLayers {layers : List Value} {merged : Json}
    (h : mergeLayers layers = .ok merged) : merged.Ordered :=
  of_mergeLayers Json.inherited_ordered (fun _ _ _ hv => Value.ordered_of_toJson? hv) h

theorem mergeLayers_append (layers more : List Value) :
    mergeLayers (layers ++ more) = mergeLayers layers >>= more.foldlM addLayer := by
  rw [mergeLayers, List.foldlM_append]
  rfl

theorem mergeLayers_concat {layers : List Value} {base : Json} (h : mergeLayers layers = .ok base)
    {layer : Value} {v : Json} (hn : layer.isNull = false) (hv : layer.toJson? = some v) :
    mergeLayers (layers ++ [layer]) = .ok (base.merge v) := by
  rw [mergeLayers_append, h]
  change [layer].foldlM addLayer base = _
  rw [List.foldlM_cons, addLayer_eq base hn hv]
  rfl

theorem mergeLayers_insert_null {layer : Value} (h : layer.isNull) (before after : List Value) :
    mergeLayers (before ++ layer :: after) = mergeLayers (before ++ after) := by
  rw [mergeLayers_append, mergeLayers_append]
  refine bind_congr fun base => ?_
  rw [List.foldlM_cons, addLayer_null base h]
  rfl

/-- Of the layers that say something at a path, or block the way to it, the last one counts. A layer
that is null counts for nothing wherever it stands, and a layer that is given twice counts once. -/
theorem mergeLayers_last_writer {layers : List Value} {values : List Json}
    (h : layerValues? layers = some values) :
    ∃ merged, mergeLayers layers = .ok merged ∧ ofLayers layers = guardSecrets merged ∧
      (∀ texts, texts.mapM Value.ofText? = some layers → ofTexts texts = guardSecrets merged) ∧
      (∀ path x, x.isObject = false →
        (merged.at? path = some x ↔ Json.LastWrites values path x)) ∧
      (∀ layer v, layer.isNull = false → layer.toJson? = some v →
        ∃ above, mergeLayers (layers ++ [layer]) = .ok above ∧
          (∀ path, ¬ v.Decides path → above.at? path = merged.at? path) ∧
          (∀ path x, x.isObject = false → v.at? path = some x → above.at? path = some x) ∧
          mergeLayers (layers ++ [layer, layer]) = .ok above) ∧
      ∀ before layer after, before ++ after = layers → layer.isNull →
        mergeLayers (before ++ layer :: after) = .ok merged := by
  have hmerged : mergeLayers layers = .ok (values.foldl Json.merge (.obj [])) := by
    rw [mergeLayers_eq, h]
  have hordered := ordered_of_layerValues? h
  have hbase : (values.foldl Json.merge (.obj [])).Ordered :=
    Json.ordered_foldl_merge hordered (.obj List.Pairwise.nil (by simp))
  have hload : ofLayers layers = guardSecrets (values.foldl Json.merge (.obj [])) := by
    rw [ofLayers_eq, hmerged]
    rfl
  refine ⟨_, hmerged, hload, fun texts ht => (ofTexts_eq ht).trans hload,
    fun path x hx => Json.at?_foldl_merge hordered hx, ?_, ?_⟩
  · intro layer v hn hv
    have hvo : v.Ordered := Value.ordered_of_toJson? hv
    have hone := mergeLayers_concat hmerged hn hv
    have htwo := mergeLayers_concat hone hn hv
    rw [Json.merge_merge hvo hbase, List.append_assoc, List.singleton_append] at htwo
    exact ⟨_, hone, fun path hd => Json.at?_merge_of_not_decides _ hvo hd,
      fun path x hx hat => (Json.at?_merge_eq_some_iff _ hvo hx).mpr (.inl hat), htwo⟩
  · intro before layer after hsplit hn
    rw [mergeLayers_insert_null hn, hsplit, hmerged]

theorem mergeLayers_override :
    let written : Value := .map [(.str "store", .map [(.str "max_connections", .number (.int 8)),
      (.str "hosts", .seq [.str "a", .str "b"])])]
    let overlay : Value := .map [(.str "store", .map [(.str "max_connections", .null)])]
    ∃ merged, mergeLayers [written, .null, overlay] = .ok merged ∧
      merged.at? ["store", "max_connections"] = some .null ∧
      merged.at? ["store", "hosts"] = some (.arr [.str "a", .str "b"]) := by
  intro written overlay
  have hvalues : layerValues? [written, .null, overlay] = some
      [.obj [("store", .obj [("hosts", .arr [.str "a", .str "b"]), ("max_connections", .int 8)])],
        .obj [("store", .obj [("max_connections", .null)])]] := by rfl
  obtain ⟨merged, hmerged, -, -, hat, -, -⟩ := mergeLayers_last_writer hvalues
  refine ⟨merged, hmerged, (hat _ _ rfl).mpr ⟨[_], _, [], rfl, rfl, by simp⟩,
    (hat _ _ rfl).mpr ⟨[], _, [_], rfl, rfl, ?_⟩⟩
  intro l hl
  obtain rfl : l = _ := List.mem_singleton.mp hl
  simp [Json.decides_cons, Json.isObject, Json.field?, Json.lookup_field]

end Regroup.Config
