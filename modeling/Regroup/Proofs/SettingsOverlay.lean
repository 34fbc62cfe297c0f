import Regroup.Proofs.SectionReading

/-! Settings that are written out below a layer. Writing all settings and merging a layer on top of
them is the same as reading the layer and taking what it does not name from the settings; so the
defaults may be written out or left to the schema. -/

namespace Regroup.Json

/-- The object names the field. -/
def has (v : Json) (name : String) : Bool := (v.field? name).isSome

/-- The section of the object names the setting. -/
def gives (v : Json) (title name : String) : Bool := (v.at? [title, name]).isSome

theorem gives_of_none {v : Json} {title : String} (h : v.field? title = none) :
    v.gives title = fun _ => false := by
  funext name
  simp [gives, h]

theorem gives_of_some {v w : Json} {title : String} (h : v.field? title = some w) :
    v.gives title = w.has := by
  funext name
  simp [gives, has, h]

theorem merge_of_base_not_object {base : Json} (h : base.isObject = false) (v : Json) :
    base.merge v = v := by
  cases v with
  | obj fields =>
    cases base with
    | obj below => cases h
    | _ => rfl
  | _ => simp [merge]

end Regroup.Json

namespace Regroup.Config

open Json (Ordered)

variable {σ α ε : Type}

theorem toOption_eq_map {β : Type} {x : Except ε β} {y : Except ε α} {f : α → β}
    (h : (∃ t, x = .ok t) ↔ ∃ r, y = .ok r) (hvalue : ∀ t r, x = .ok t → y = .ok r → t = f r) :
    x.toOption = y.toOption.map f := by
  cases x with
  | ok t =>
    obtain ⟨r, rfl⟩ := h.mp ⟨t, rfl⟩
    exact congrArg some (hvalue t r rfl rfl)
  | error e =>
    cases y with
    | ok r =>
      obtain ⟨t, ht⟩ := h.mpr ⟨r, rfl⟩
      cases ht
    | error e' => rfl

/-- What a section is when all its settings are written out and a layer is merged on top. -/
structure Overlays (read : Reads σ) (write : σ → Json) (fits : σ → Prop) (defaults : σ)
    (overlay : (String → Bool) → σ → σ → σ) : Prop where
  written : ∀ s, fits s → read (write s) = .ok s
  merged : ∀ s v, fits s → v.Ordered → v.isObject →
    (read ((write s).merge v)).toOption = (read v).toOption.map (overlay v.has s)
  absent : ∀ s t, overlay (fun _ => false) s t = s
  defaulted : ∀ v t, v.Ordered → v.isObject → read v = .ok t → overlay v.has defaults t = t

namespace Describes

variable {settings : List (Setting σ)} {fields : List (Field σ)} {title : String} {d : σ}

theorem merge_succeeds_iff (h : Describes settings fields) {base v : Json} (hb : base.Ordered)
    (hv : v.Ordered) (ho : v.isObject)
    (hparts : ∀ p ∈ settings, ∃ b, base.field? p.name = some b ∧ (∃ a, p.read b = .ok a) ∧
      ∀ w, v.field? p.name = some w → ((∃ a, p.read (b.merge w) = .ok a) ↔ ∃ a, p.read w = .ok a)) :
    (∃ t, readSection title fields d (base.merge v) = .ok t) ↔
      ∃ t, readSection title fields d v = .ok t := by
  rw [h.succeeds_iff (hv.merge hb) (Json.isObject_merge base ho), h.succeeds_iff hv ho]
  refine forall₂_congr fun p hp => ?_
  obtain ⟨b, hbase, hread, hmerge⟩ := hparts p hp
  rw [Json.field?_merge base hv ho, hbase]
  cases hw : v.field? p.name with
  | none => simpa using hread
  | some w => simpa using hmerge w hw

/-- A section of which each setting is written as something other than an object. -/
theorem overlays (h : Describes settings fields) {write : σ → Json} {fits : σ → Prop}
    {overlay : (String → Bool) → σ → σ → σ}
    (hordered : ∀ s, (write s).Ordered) (hobject : ∀ s, (write s).isObject)
    (hwritten : ∀ s, fits s → ∀ p ∈ settings, ∃ b, (write s).field? p.name = some b ∧
      b.isObject = false ∧ p.read b = .ok (p.get s))
    (hoverlay : ∀ p ∈ settings, ∀ given s t,
      p.get (overlay given s t) = if given p.name then p.get t else p.get s) :
    Overlays (readSection title fields d) write fits d overlay where
  written s hs := by
    obtain ⟨t, ht⟩ : ∃ t, readSection title fields d (write s) = .ok t := by
      refine (h.succeeds_iff (hordered s) (hobject s)).mpr fun p hp w hw => ?_
      obtain ⟨b, hb, -, hread⟩ := hwritten s hs p hp
      obtain rfl : b = w := Option.some.inj (hb.symm.trans hw)
      exact ⟨_, hread⟩
    rw [ht]
    refine congrArg Except.ok (h.ext t s fun p hp => ?_)
    obtain ⟨b, hb, -, hread⟩ := hwritten s hs p hp
    exact Except.ok.inj (((h.get_eq (hordered s) (hobject s) ht hp).1 b hb).symm.trans hread)
  merged s v hs hv ho := by
    refine toOption_eq_map (h.merge_succeeds_iff (hordered s) hv ho fun p hp => ?_)
      fun t r ht hr => h.ext _ _ fun p hp => ?_
    · obtain ⟨b, hb, hbo, hread⟩ := hwritten s hs p hp
      exact ⟨b, hb, ⟨_, hread⟩, fun w _ => by rw [Json.merge_of_base_not_object hbo]⟩
    · obtain ⟨b, hb, hbo, hread⟩ := hwritten s hs p hp
      have hmerged := h.get_eq (hv.merge (hordered s)) (Json.isObject_merge _ ho) ht hp
      have hlayer := h.get_eq hv ho hr hp
      rw [Json.field?_merge _ hv ho, hb] at hmerged
      rw [hoverlay p hp, Json.has]
      cases hw : v.field? p.name with
      | none =>
        rw [hw] at hmerged
        exact Except.ok.inj ((hmerged.1 b rfl).symm.trans hread)
      | some w =>
        rw [hw] at hmerged
        have hread' := hmerged.1 _ rfl
        rw [Option.getD_some, Json.merge_of_base_not_object hbo] at hread'
        exact Except.ok.inj (hread'.symm.trans (hlayer.1 w hw))
  absent s t := h.ext _ _ fun p hp => by rw [hoverlay p hp, if_neg Bool.false_ne_true]
  defaulted v t hv ho ht := h.ext _ _ fun p hp => by
    have hlayer := h.get_eq hv ho ht hp
    rw [hoverlay p hp, Json.has]
    cases hw : v.field? p.name with
    | none => exact (hlayer.2 hw).symm
    | some w => rfl

end Describes

theorem readStrings_map (l : List String) : readStrings (.arr (l.map .str)) = .ok l := by
  rw [readStrings]
  induction l with
  | nil => rfl
  | cons s rest ih =>
    rw [List.map_cons, List.mapM_cons, readString, ih]
    rfl

theorem readUnsigned_int {bound n : Nat} (h : n ≤ bound) (wanted : Wanted) :
    readUnsigned bound wanted (.int n) = .ok n := by
  have hn : (n : Int) ≤ bound := Int.ofNat_le.mpr h
  simp [readUnsigned, hn]

namespace ReconcileSection

def settings : List (Setting ReconcileSection) :=
  [ ⟨_, "default_group_name", readString, defaultGroupName⟩,
    ⟨_, "lock_wait_timeout_secs", readOptional (readUnsigned Word.maxUnsigned .unsigned64),
      lockWaitSeconds⟩,
    ⟨_, "seed_defaults_from", readChoice SeedStrategy.every SeedStrategy.name, seedStrategy⟩,
    ⟨_, "skip_provisioning", readBool, skipProvisioning⟩,
    ⟨_, "edge_scope", readChoice EdgeScope.every EdgeScope.name, edgeScope⟩,
    ⟨_, "excluded_counterparts", readStrings, excluded⟩,
    ⟨_, "ensure_indexes", readBool, ensureIndexes⟩ ]

theorem describes : Describes settings fields where
  entered := .cons (.of _ fun _ _ => rfl) <| .cons (.of _ fun _ _ => rfl) <|
    .cons (.of _ fun _ _ => rfl) <| .cons (.of _ fun _ _ => rfl) <|
    .cons (.of _ fun _ _ => rfl) <| .cons (.of _ fun _ _ => rfl) <|
    .cons (.of _ fun _ _ => rfl) .nil
  apart := by simp [settings, fields]
  names := by decide
  ext := by
    rintro ⟨⟩ ⟨⟩ h
    simp [settings] at h
    simp [h]

/-- Each setting from the one section if it is given there, else from the other. -/
def overlay (given : String → Bool) (below above : ReconcileSection) : ReconcileSection where
  defaultGroupName :=
    if given "default_group_name" then above.defaultGroupName else below.defaultGroupName
  lockWaitSeconds :=
    if given "lock_wait_timeout_secs" then above.lockWaitSeconds else below.lockWaitSeconds
  seedStrategy := if given "seed_defaults_from" then above.seedStrategy else below.seedStrategy
  skipProvisioning :=
    if given "skip_provisioning" then above.skipProvisioning else below.skipProvisioning
  edgeScope := if given "edge_scope" then above.edgeScope else below.edgeScope
  excluded := if given "excluded_counterparts" then above.excluded else below.excluded
  ensureIndexes := if given "ensure_indexes" then above.ensureIndexes else below.ensureIndexes

/-- The numbers are words. -/
def Fits (s : ReconcileSection) : Prop := ∀ n ∈ s.lockWaitSeconds, n ≤ Word.maxUnsigned

theorem ordered_toJson (s : ReconcileSection) : s.toJson.Ordered := by
  refine Json.ordered_ofFields ?_
  simp only [List.forall_mem_cons]
  refine ⟨.str _, ?_, .str _, .bool _, .str _, .arr ?_, .bool _, List.forall_mem_nil _⟩
  · cases s.lockWaitSeconds with
    | none => exact .null
    | some n => exact .int n
  · simp only [List.forall_mem_map]
    exact fun t _ => .str t

theorem written {s : ReconcileSection} (hs : s.Fits) : ∀ p ∈ settings,
    ∃ b, s.toJson.field? p.name = some b ∧ b.isObject = false ∧ p.read b = .ok (p.get s) := by
  simp only [settings, List.forall_mem_cons, toJson, Json.field?_ofFields]
  refine ⟨⟨_, rfl, rfl, rfl⟩, ⟨_, rfl, ?_⟩, ⟨_, rfl, rfl, ?_⟩, ⟨_, rfl, rfl, rfl⟩, ⟨_, rfl, rfl, ?_⟩,
    ⟨_, rfl, rfl, readStrings_map _⟩, ⟨_, rfl, rfl, rfl⟩, List.forall_mem_nil _⟩
  · cases hwait : s.lockWaitSeconds with
    | none => exact ⟨rfl, rfl⟩
    | some n => exact ⟨rfl, by simp [readOptional, readUnsigned_int (hs n hwait), Except.map]⟩
  · cases s.seedStrategy <;> rfl
  · cases s.edgeScope <;> rfl

theorem overlays : Overlays (readSection "ReconcileSection" fields {}) toJson Fits {} overlay :=
  describes.overlays ordered_toJson (fun s => rfl) (fun s => written) (by simp [settings, overlay])

end ReconcileSection

namespace StoreSection

def settings : List (Setting StoreSection) :=
  [ ⟨_, "database_url_env", readString, databaseVariable⟩,
    ⟨_, "max_connections", readUnsigned Word.maxUnsigned32 .unsigned32, maxConnections⟩ ]

theorem describes : Describes settings fields where
  entered := .cons (.of _ fun _ _ => rfl) <| .cons (.of _ fun _ _ => rfl) .nil
  apart := by simp [settings, fields]
  names := by decide
  ext := by
    rintro ⟨⟩ ⟨⟩ h
    simp [settings] at h
    simp [h]

def overlay (given : String → Bool) (below above : StoreSection) : StoreSection where
  databaseVariable :=
    if given "database_url_env" then above.databaseVariable else below.databaseVariable
  maxConnections := if given "max_connections" then above.maxConnections else below.maxConnections

def Fits (s : StoreSection) : Prop := s.maxConnections ≤ Word.maxUnsigned32

theorem ordered_toJson (s : StoreSection) : s.toJson.Ordered := by
  refine Json.ordered_ofFields ?_
  simp only [List.forall_mem_cons]
  exact ⟨.str _, .int _, List.forall_mem_nil _⟩

theorem written {s : StoreSection} (hs : s.Fits) : ∀ p ∈ settings,
    ∃ b, s.toJson.field? p.name = some b ∧ b.isObject = false ∧ p.read b = .ok (p.get s) := by
  simp only [settings, List.forall_mem_cons, toJson, Json.field?_ofFields]
  exact ⟨⟨_, rfl, rfl, rfl⟩, ⟨_, rfl, rfl, readUnsigned_int hs _⟩, List.forall_mem_nil _⟩

theorem overlays : Overlays (readSection "StoreSection" fields {}) toJson Fits {} overlay :=
  describes.overlays ordered_toJson (fun s => rfl) (fun s => written) (by simp [settings, overlay])

end StoreSection

namespace SequenceSection

def settings : List (Setting SequenceSection) :=
  [ ⟨_, "backend", readChoice Backend.every Backend.name, backend⟩,
    ⟨_, "edge_counter", readString, fun s => s.counters.edge⟩,
    ⟨_, "group_counter", readString, fun s => s.counters.group⟩,
    ⟨_, "redis_url_env", readString, redisVariable⟩,
    ⟨_, "timeout_secs", readUnsigned Word.maxUnsigned .unsigned64, timeoutSeconds⟩ ]

theorem describes : Describes settings fields where
  entered := .cons (.of _ fun _ _ => rfl) <| .cons (.of _ fun _ _ => rfl) <|
    .cons (.of _ fun _ _ => rfl) <| .cons (.of _ fun _ _ => rfl) <|
    .cons (.of _ fun _ _ => rfl) .nil
  apart := by simp [settings, fields]
  names := by decide
  ext := by
    rintro ⟨_, ⟨⟩⟩ ⟨_, ⟨⟩⟩ h
    simp [settings] at h
    simp [h]

def overlay (given : String → Bool) (below above : SequenceSection) : SequenceSection where
  backend := if given "backend" then above.backend else below.backend
  counters :=
    { edge := if given "edge_counter" then above.counters.edge else below.counters.edge
      group := if given "group_counter" then above.counters.group else below.counters.group }
  redisVariable := if given "redis_url_env" then above.redisVariable else below.redisVariable
  timeoutSeconds := if given "timeout_secs" then above.timeoutSeconds else below.timeoutSeconds

def Fits (s : SequenceSection) : Prop := s.timeoutSeconds ≤ Word.maxUnsigned

theorem ordered_toJson (s : SequenceSection) : s.toJson.Ordered := by
  refine Json.ordered_ofFields ?_
  simp only [List.forall_mem_cons]
  exact ⟨.str _, .str _, .str _, .str _, .int _, List.forall_mem_nil _⟩

theorem written {s : SequenceSection} (hs : s.Fits) : ∀ p ∈ settings,
    ∃ b, s.toJson.field? p.name = some b ∧ b.isObject = false ∧ p.read b = .ok (p.get s) := by
  simp only [settings, List.forall_mem_cons, toJson, Json.field?_ofFields]
  refine ⟨⟨_, rfl, rfl, ?_⟩, ⟨_, rfl, rfl, rfl⟩, ⟨_, rfl, rfl, rfl⟩, ⟨_, rfl, rfl, rfl⟩,
    ⟨_, rfl, rfl, readUnsigned_int hs _⟩, List.forall_mem_nil _⟩
  cases s.backend <;> rfl

theorem overlays : Overlays (readSection "SequenceSection" fields {}) toJson Fits {} overlay :=
  describes.overlays ordered_toJson (fun s => rfl) (fun s => written) (by simp [settings, overlay])

end SequenceSection

namespace LoggingSection

def settings : List (Setting LoggingSection) :=
  [ ⟨_, "level", readString, level⟩,
    ⟨_, "format", readChoice LogFormat.every LogFormat.name, format⟩ ]

theorem describes : Describes settings fields where
  entered := .cons (.of _ fun _ _ => rfl) <| .cons (.of _ fun _ _ => rfl) .nil
  apart := by simp [settings, fields]
  names := by decide
  ext := by
    rintro ⟨⟩ ⟨⟩ h
    simp [settings] at h
    simp [h]

def overlay (given : String → Bool) (below above : LoggingSection) : LoggingSection where
  level := if given "level" then above.level else below.level
  format := if given "format" then above.format else below.format

theorem ordered_toJson (s : LoggingSection) : s.toJson.Ordered := by
  refine Json.ordered_ofFields ?_
  simp only [List.forall_mem_cons]
  exact ⟨.str _, .str _, List.forall_mem_nil _⟩

theorem written (s : LoggingSection) : ∀ p ∈ settings,
    ∃ b, s.toJson.field? p.name = some b ∧ b.isObject = false ∧ p.read b = .ok (p.get s) := by
  simp only [settings, List.forall_mem_cons, toJson, Json.field?_ofFields]
  refine ⟨⟨_, rfl, rfl, rfl⟩, ⟨_, rfl, rfl, ?_⟩, List.forall_mem_nil _⟩
  cases s.format <;> rfl

theorem overlays :
    Overlays (readSection "LoggingSection" fields {}) toJson (fun _ => True) {} overlay :=
  describes.overlays ordered_toJson (fun s => rfl) (fun s _ => s.written)
    (by simp [settings, overlay])

end LoggingSection

namespace Overlays

variable {read : Reads σ} {write : σ → Json} {fits : σ → Prop} {d s t r : σ}
  {overlay : (String → Bool) → σ → σ → σ}

theorem merged_succeeds_iff (h : Overlays read write fits d overlay) (hs : fits s) {w : Json}
    (hw : w.Ordered) (ho : w.isObject) :
    (∃ t, read ((write s).merge w) = .ok t) ↔ ∃ r, read w = .ok r := by
  have hmerged := h.merged s w hs hw ho
  cases hx : read ((write s).merge w) <;> cases hy : read w <;>
    simp_all [Except.toOption]

/-- A section of a merged object is the written one with what the layer names in it. -/
theorem eq_overlay (h : Overlays read write fits d overlay) (hs : fits s) {v base : Json}
    {title : String} (hbase : base.field? title = some (write s)) (hv : v.Ordered) (ho : v.isObject)
    (hpart : ∀ w, v.field? title = some w → w.isObject)
    (ht : ∀ w, (base.merge v).field? title = some w → read w = .ok t)
    (hr : ∀ w, v.field? title = some w → read w = .ok r) :
    t = overlay (v.gives title) s r := by
  rw [Json.field?_merge base hv ho, hbase] at ht
  cases hw : v.field? title with
  | none =>
    rw [hw] at ht
    rw [Json.gives_of_none hw, h.absent]
    exact Except.ok.inj ((ht _ rfl).symm.trans (h.written s hs))
  | some w =>
    rw [hw] at ht
    have hread : read ((write s).merge w) = .ok t := ht _ rfl
    have hmerged := h.merged s w hs (hv.of_field? hw) (hpart w hw)
    rw [hread, hr w hw] at hmerged
    rw [Json.gives_of_some hw]
    exact Option.some.inj hmerged

theorem overlay_defaults (h : Overlays read write fits d overlay) {v : Json} {title : String}
    (hv : v.Ordered) (hpart : ∀ w, v.field? title = some w → w.isObject)
    (hr : (∀ w, v.field? title = some w → read w = .ok r) ∧ (v.field? title = none → r = d)) :
    overlay (v.gives title) d r = r := by
  cases hw : v.field? title with
  | none => rw [Json.gives_of_none hw, h.absent, hr.2 hw]
  | some w =>
    rw [Json.gives_of_some hw]
    exact h.defaulted w r (hv.of_field? hw) (hpart w hw) (hr.1 w hw)

end Overlays

namespace Settings

def settings : List (Setting Settings) :=
  [ ⟨_, "reconcile", readSection "ReconcileSection" ReconcileSection.fields {}, reconcile⟩,
    ⟨_, "store", readSection "StoreSection" StoreSection.fields {}, store⟩,
    ⟨_, "sequence", readSection "SequenceSection" SequenceSection.fields {}, sequence⟩,
    ⟨_, "logging", readSection "LoggingSection" LoggingSection.fields {}, logging⟩ ]

theorem describes : Describes settings fields where
  entered := .cons (.of _ fun _ _ => rfl) <| .cons (.of _ fun _ _ => rfl) <|
    .cons (.of _ fun _ _ => rfl) <| .cons (.of _ fun _ _ => rfl) .nil
  apart := by simp [settings, fields]
  names := by decide
  ext := by
    rintro ⟨⟩ ⟨⟩ h
    simp [settings] at h
    simp [h]

/-- The numbers are words. -/
structure Fits (s : Settings) : Prop where
  reconcile : s.reconcile.Fits
  store : s.store.Fits
  sequence : s.sequence.Fits

theorem fits_default : Fits {} where
  reconcile := fun _ h => by cases h
  store := show 4 ≤ Word.maxUnsigned32 by decide
  sequence := show 5 ≤ Word.maxUnsigned by decide

/-- Each setting from above if the layer names it, else from below. -/
def overlay (below : Settings) (layer : Json) (above : Settings) : Settings where
  reconcile := below.reconcile.overlay (layer.gives "reconcile") above.reconcile
  store := below.store.overlay (layer.gives "store") above.store
  sequence := below.sequence.overlay (layer.gives "sequence") above.sequence
  logging := below.logging.overlay (layer.gives "logging") above.logging

variable {s t r : Settings} {v : Json}

theorem ordered_toJson (s : Settings) : s.toJson.Ordered := by
  refine Json.ordered_ofFields ?_
  simp only [List.forall_mem_cons]
  exact ⟨s.reconcile.ordered_toJson, s.store.ordered_toJson, s.sequence.ordered_toJson,
    s.logging.ordered_toJson, List.forall_mem_nil _⟩

/-- Each section is written and overlaid by itself. -/
theorem parts (hs : s.Fits) : ∀ p ∈ settings, ∃ write fits overlay,
    Overlays p.read write fits (p.get {}) overlay ∧ fits (p.get s) ∧
      s.toJson.field? p.name = some (write (p.get s)) ∧
      ∀ v t, p.get (s.overlay v t) = overlay (v.gives p.name) (p.get s) (p.get t) := by
  simp only [settings, List.forall_mem_cons, toJson, Json.field?_ofFields]
  exact ⟨⟨_, _, _, ReconcileSection.overlays, hs.reconcile, rfl, fun _ _ => rfl⟩,
    ⟨_, _, _, StoreSection.overlays, hs.store, rfl, fun _ _ => rfl⟩,
    ⟨_, _, _, SequenceSection.overlays, hs.sequence, rfl, fun _ _ => rfl⟩,
    ⟨_, _, _, LoggingSection.overlays, trivial, rfl, fun _ _ => rfl⟩, List.forall_mem_nil _⟩

theorem merge_succeeds_iff (hs : s.Fits) (hv : v.Ordered) (ho : v.isObject)
    (hparts : ∀ p ∈ settings, ∀ w, v.field? p.name = some w → w.isObject) :
    (∃ t, ofJson (s.toJson.merge v) = .ok t) ↔ ∃ r, ofJson v = .ok r := by
  refine describes.merge_succeeds_iff s.ordered_toJson hv ho fun p hp => ?_
  obtain ⟨write, fits, overlay, h, hfits, hfield, -⟩ := parts hs p hp
  exact ⟨_, hfield, ⟨_, h.written _ hfits⟩, fun w hw =>
    h.merged_succeeds_iff hfits (hv.of_field? hw) (hparts p hp w hw)⟩

theorem eq_overlay (hs : s.Fits) (hv : v.Ordered) (ho : v.isObject)
    (hparts : ∀ p ∈ settings, ∀ w, v.field? p.name = some w → w.isObject)
    (ht : ofJson (s.toJson.merge v) = .ok t) (hr : ofJson v = .ok r) : t = s.overlay v r := by
  refine describes.ext _ _ fun p hp => ?_
  obtain ⟨write, fits, overlay, h, hfits, hfield, hoverlay⟩ := parts hs p hp
  have hmerged := describes.get_eq (hv.merge s.ordered_toJson) (Json.isObject_merge _ ho) ht hp
  have hlayer := describes.get_eq hv ho hr hp
  rw [hoverlay]
  exact h.eq_overlay hfits hfield hv ho (hparts p hp) hmerged.1 hlayer.1

theorem overlay_defaults (hv : v.Ordered) (ho : v.isObject)
    (hparts : ∀ p ∈ settings, ∀ w, v.field? p.name = some w → w.isObject)
    (hr : ofJson v = .ok r) : ({} : Settings).overlay v r = r := by
  refine describes.ext _ _ fun p hp => ?_
  obtain ⟨write, fits, overlay, h, -, -, hoverlay⟩ := parts fits_default p hp
  rw [hoverlay]
  exact h.overlay_defaults hv (hparts p hp) (describes.get_eq hv ho hr hp)

/-- Settings that are written out below a layer are read as often as the layer alone, and each setting
comes from the layer if it is named there and from the settings otherwise. So what is written out is
read back, and defaults that are written out are as good as those of the schema. -/
theorem ofJson_merge (hs : s.Fits) (hv : v.Ordered) (ho : v.isObject)
    (hparts : ∀ title ∈ ["reconcile", "store", "sequence", "logging"], ∀ w,
      v.field? title = some w → w.isObject) :
    ((∃ t, ofJson (s.toJson.merge v) = .ok t) ↔ ∃ r, ofJson v = .ok r) ∧
      (∀ t r, ofJson (s.toJson.merge v) = .ok t → ofJson v = .ok r → t = s.overlay v r) ∧
      ofJson s.toJson = .ok s ∧
      (ofJson (({} : Settings).toJson.merge v)).toOption = (ofJson v).toOption := by
  have hobjects : ∀ p ∈ settings, ∀ w, v.field? p.name = some w → w.isObject :=
    fun p hp => hparts p.name (List.mem_map_of_mem (f := Setting.name) hp)
  refine ⟨merge_succeeds_iff hs hv ho hobjects, fun t r => eq_overlay hs hv ho hobjects, ?_, ?_⟩
  · have hempty : Ordered (.obj []) := .obj .nil (List.forall_mem_nil _)
    obtain ⟨t, ht⟩ := (merge_succeeds_iff hs hempty rfl fun _ _ _ hw => by cases hw).mpr ⟨{}, rfl⟩
    obtain rfl := eq_overlay hs hempty rfl (fun _ _ _ hw => by cases hw) ht rfl
    exact ht
  · have hsame := toOption_eq_map (f := id) (merge_succeeds_iff fits_default hv ho hobjects)
      fun t r ht hr =>
        (eq_overlay fits_default hv ho hobjects ht hr).trans (overlay_defaults hv ho hobjects hr)
    rwa [Option.map_id] at hsame

/-- A layer that takes a written timeout back. -/
theorem ofJson_merge_null :
    let s : Settings := { reconcile := { lockWaitSeconds := some 3, edgeScope := .activeOnly } }
    let v : Json := .obj
      [("reconcile", .obj [("lock_wait_timeout_secs", .null)]),
        ("store", .obj [("max_connections", .int 9), ("no_such_key", .int 1)])]
    ofJson (s.toJson.merge v) =
      .ok { reconcile := { edgeScope := .activeOnly }, store := { maxConnections := 9 } } := by
  intro s v
  have hs : s.Fits :=
    { fits_default with reconcile := fun n hn => by cases hn; decide }
  have hv : v.Ordered := by
    refine .obj (by decide +kernel) ?_
    simp only [List.forall_mem_cons]
    exact ⟨.obj (by simp) (by simpa using .null),
      .obj (by decide +kernel) (by simpa using ⟨.int 9, .int 1⟩), List.forall_mem_nil _⟩
  have hparts : ∀ title ∈ ["reconcile", "store", "sequence", "logging"], ∀ w,
      v.field? title = some w → w.isObject := by
    simp only [List.forall_mem_cons]
    refine ⟨?_, ?_, ?_, ?_, List.forall_mem_nil _⟩ <;> rintro w ⟨⟩ <;> rfl
  have hlayer : ofJson v = .ok { store := { maxConnections := 9 } } := rfl
  obtain ⟨hsucceeds, hvalue, -, -⟩ := ofJson_merge hs hv rfl hparts
  obtain ⟨t, ht⟩ := hsucceeds.mpr ⟨_, hlayer⟩
  rw [ht, hvalue t _ ht hlayer]
  rfl

end Settings

end Regroup.Config
