import Regroup.Proofs.EntryOrder

/-! What the canonical text of a configuration tells. Fields are kept in ascending order, so that values
which differ in the order of their fields alone are one value, with one text; and the text of a value
without floating-point numbers is the text of no other value. -/

namespace Regroup.Json

/-- Equality for which the order of fields does not count. -/
inductive Alike : Json → Json → Prop where
  | null : Alike .null .null
  | bool (b : Bool) : Alike (.bool b) (.bool b)
  | int (n : Int) : Alike (.int n) (.int n)
  | float (d : Double) : Alike (.float d) (.float d)
  | str (s : String) : Alike (.str s) (.str s)
  | arr {items others : List Json} (length : items.length = others.length)
      (parts : ∀ (i : Nat) (v w : Json), items[i]? = some v → others[i]? = some w → Alike v w) :
    Alike (.arr items) (.arr others)
  | obj {fields others : List (String × Json)}
      (names : ∀ name, (fields.lookup name).isSome = (others.lookup name).isSome)
      (parts : ∀ name v w, fields.lookup name = some v → others.lookup name = some w → Alike v w) :
    Alike (.obj fields) (.obj others)

theorem Ordered.alike_self {v : Json} (h : v.Ordered) : v.Alike v := by
  induction h with
  | arr parts ih =>
    refine .arr rfl fun i v w hv hw => ?_
    obtain rfl := Option.some.inj (hv.symm.trans hw)
    exact ih v (List.mem_of_getElem? hv)
  | obj names parts ih =>
    refine .obj (fun _ => rfl) fun name v w hv hw => ?_
    obtain rfl := Option.some.inj (hv.symm.trans hw)
    exact ih (name, v) (mem_of_lookup_eq_some hv)
  | null => exact .null
  | bool b => exact .bool b
  | int n => exact .int n
  | float d => exact .float d
  | str s => exact .str s

theorem Alike.eq {v w : Json} (h : v.Alike w) (hv : v.Ordered) (hw : w.Ordered) : v = w := by
  induction h with
  | @arr items others hlength parts ih =>
    cases hv with
    | arr hitems =>
      cases hw with
      | arr hothers =>
        refine congrArg Json.arr (List.ext_getElem hlength fun i hi ho => ?_)
        exact ih i _ _ (List.getElem?_eq_getElem hi) (List.getElem?_eq_getElem ho)
          (hitems _ (List.getElem_mem hi)) (hothers _ (List.getElem_mem ho))
  | @obj fields others hnames parts ih =>
    refine hv.ext hw rfl rfl fun name => ?_
    have hsome := hnames name
    cases hv' : fields.lookup name with
    | none =>
      rw [hv', Option.isSome_none, eq_comm, Option.isSome_eq_false_iff, Option.isNone_iff_eq_none] at hsome
      rw [field?, field?, hv', hsome]
    | some v =>
      rw [hv', Option.isSome_some, eq_comm, Option.isSome_iff_exists] at hsome
      obtain ⟨w, hw'⟩ := hsome
      rw [field?, field?, hv', hw', ih name v w hv' hw' (hv.of_lookup hv') (hw.of_lookup hw')]
  | _ => rfl

theorem Ordered.alike_iff {v w : Json} (hv : v.Ordered) (hw : w.Ordered) : v.Alike w ↔ v = w :=
  ⟨fun h => h.eq hv hw, fun h => h ▸ hv.alike_self⟩

end Regroup.Json

namespace Regroup.Config

open Yaml (Value)

theorem mergeLayers_of_ofLayers {layers : List Value} {c : Loaded} (h : ofLayers layers = .ok c) :
    mergeLayers layers = .ok c.json := by
  rw [ofLayers_eq] at h
  cases hmerged : mergeLayers layers with
  | error e =>
    rw [hmerged] at h
    cases h
  | ok merged =>
    rw [hmerged] at h
    change guardSecrets merged = .ok c at h
    unfold guardSecrets at h
    cases hsecret : firstSecret? merged with
    | some place => simp [hsecret] at h
    | none =>
      obtain rfl : ⟨merged⟩ = c := by simpa [hsecret] using h
      rfl

theorem floatFree_of_mergeLayers {layers : List Value} {merged : Json} (hl : ∀ l ∈ layers, l.Plain)
    (h : mergeLayers layers = .ok merged) : merged.FloatFree := by
  refine of_mergeLayers Json.inherited_floatFree (fun l hmem v hv => ?_) h
  obtain ⟨j, hj, hfree⟩ := (hl l hmem).exists_toJson?
  obtain rfl := Option.some.inj (hv.symm.trans hj)
  exact hfree

theorem addLayer_reordered {layer other : Value} (h : layer.Reordered other) (hl : layer.Regular)
    (base : Json) : addLayer base other = addLayer base layer := by
  obtain ⟨-, hnull, hjson⟩ := h.sameContent hl
  rw [addLayer, addLayer, hnull, hjson]

theorem foldlM_addLayer_reordered {layers others : List Value}
    (h : List.Forall₂ Value.Reordered layers others) (hl : ∀ l ∈ layers, l.Regular) (base : Json) :
    others.foldlM addLayer base = layers.foldlM addLayer base := by
  induction h generalizing base with
  | nil => rfl
  | cons hhead hrest ih =>
    obtain ⟨hlayer, hlayers⟩ := List.forall_mem_cons.mp hl
    rw [List.foldlM_cons, List.foldlM_cons, addLayer_reordered hhead hlayer]
    exact bind_congr fun next => ih hlayers next

theorem ofLayers_reordered {layers others : List Value}
    (h : List.Forall₂ Value.Reordered layers others) (hl : ∀ l ∈ layers, l.Regular) :
    ofLayers others = ofLayers layers := by
  rw [ofLayers, ofLayers, foldlM_addLayer_reordered h hl]

theorem distinctKeys_of_texts {texts : List String} {layers : List Value}
    (h : texts.mapM Value.ofText? = some layers) : ∀ l ∈ layers, l.DistinctKeys := by
  induction texts generalizing layers with
  | nil =>
    obtain rfl : [] = layers := by simpa using h
    exact List.forall_mem_nil _
  | cons s rest ih =>
    simp only [List.mapM_cons, Option.bind_eq_bind, Option.bind_eq_some_iff, Option.pure_def,
      Option.some.injEq] at h
    obtain ⟨layer, hs, more, hmore, rfl⟩ := h
    exact List.forall_mem_cons.mpr ⟨Value.distinctKeys_ofText? hs, ih hmore⟩

/-- The canonical text is that of one configuration only, up to the order of fields, so that hashes of
different configurations are the same only if their texts collide. In whatever order the entries of
mappings are written, at any depth, the configuration is the same, with its text and its hash. -/
theorem canonicalText_identifies {layers others : List Value} {c d : Loaded}
    (hl : ∀ l ∈ layers, l.Plain) (ho : ∀ l ∈ others, l.Plain)
    (hc : ofLayers layers = .ok c) (hd : ofLayers others = .ok d) :
    (c.canonicalText = d.canonicalText ↔ c.json.Alike d.json) ∧
      (c.hash = d.hash → c.json.Alike d.json ∨
        Digest.Collide c.canonicalText.toUTF8.toList d.canonicalText.toUTF8.toList) ∧
      (∀ texts, texts.mapM Value.ofText? = some layers →
        ofTexts texts = .ok c ∧ ∀ l ∈ layers, l.DistinctKeys) ∧
      ((∀ l ∈ layers, l.DistinctKeys) → ∀ shuffled, List.Forall₂ Value.Reordered layers shuffled →
        ofLayers shuffled = .ok c) := by
  have hcm := mergeLayers_of_ofLayers hc
  have hdm := mergeLayers_of_ofLayers hd
  have htext : c.canonicalText = d.canonicalText ↔ c.json.Alike d.json := by
    rw [(ordered_of_mergeLayers hcm).alike_iff (ordered_of_mergeLayers hdm)]
    exact ⟨Json.text_inj (floatFree_of_mergeLayers hl hcm) (floatFree_of_mergeLayers ho hdm),
      congrArg Json.text⟩
  refine ⟨htext, fun h => ?_, fun texts ht => ?_, fun hkeys shuffled h => ?_⟩
  · exact (Digest.eq_or_collide h).imp_left htext.mp
  · exact ⟨(ofTexts_eq ht).trans hc, distinctKeys_of_texts ht⟩
  · rw [ofLayers_reordered h fun l hmem => ⟨hl l hmem, hkeys l hmem⟩, hc]

/-- The order of entries tells nothing, at any depth; the sign of a number does. -/
theorem canonicalText_identifies_shuffled :
    let store (n : Int) : Value :=
      .map [(.str "tls", .bool true), (.str "max_connections", .number (.int n))]
    let layer (n : Int) : Value := .map [(.str "store", store n), (.str "ports", .seq [.null])]
    let shuffled : Value := .map [(.str "ports", .seq [.null]),
      (.str "store", .map [(.str "max_connections", .number (.int 4)), (.str "tls", .bool true)])]
    ∃ c d, ofLayers [layer 4] = .ok c ∧ ofLayers [layer (-4)] = .ok d ∧ ofLayers [shuffled] = .ok c ∧
      ¬ c.json.Alike d.json := by
  intro store layer shuffled
  let config (n : Int) : Json :=
    .obj [("ports", .arr [.null]), ("store", .obj [("max_connections", .int n), ("tls", .bool true)])]
  have hload : ofLayers [layer 4] = .ok ⟨config 4⟩ := by rfl
  have hload' : ofLayers [layer (-4)] = .ok ⟨config (-4)⟩ := by rfl
  have hstore : ∀ n, (store n).Regular := by
    intro n
    rw [Value.regular_map]
    simp only [List.forall_mem_cons]
    exact ⟨⟨⟨_, rfl⟩, ⟨_, rfl⟩, List.forall_mem_nil _⟩, by simp,
      ⟨.bool _, .bool _⟩, ⟨.int _, .number _⟩, List.forall_mem_nil _⟩
  have hregular : ∀ n, ∀ l ∈ [layer n], l.Regular := by
    intro n
    rw [List.forall_mem_singleton, Value.regular_map]
    simp only [List.forall_mem_cons]
    refine ⟨⟨⟨_, rfl⟩, ⟨_, rfl⟩, List.forall_mem_nil _⟩, by simp, hstore n, ?_, List.forall_mem_nil _⟩
    exact Value.regular_seq.mpr (List.forall_mem_singleton.mpr ⟨.null, .null⟩)
  have hmoved : (layer 4).Reordered shuffled :=
    .trans (.entry [] _ (.str "store") (.entries (.swap _ _ []))) (.entries (.swap _ _ []))
  obtain ⟨htext, -, -, hshuffled⟩ := canonicalText_identifies
    (fun l hl => (hregular 4 l hl).plain) (fun l hl => (hregular (-4) l hl).plain)
    hload hload'
  refine ⟨_, _, hload, hload', ?_, ?_⟩
  · exact hshuffled (fun l hl => (hregular 4 l hl).distinctKeys) [shuffled] (.cons hmoved .nil)
  · rw [← htext]
    decide +kernel

end Regroup.Config
