import Mathlib.Data.List.Nodup
import Regroup.Config.Schema
import Regroup.Proofs.Layering
import Regroup.Proofs.Numbering
import Regroup.Proofs.UnreadKeys

/-! Sections that are read from objects, setting by setting. A section is told by its settings, each
of which one field enters and all others leave alone; so an object can be read if the values of the
settings that it names can be, in whatever order they stand, and what it does not name keeps its
default. -/

namespace Regroup.Config

open Json (Ordered)

variable {σ α ε : Type}

theorem bind_eq_ok {β : Type} {x : Except ε α} {f : α → Except ε β} {b : β} :
    x >>= f = .ok b ↔ ∃ a, x = .ok a ∧ f a = .ok b := by
  cases x with
  | error e => simp [bind, Except.bind]
  | ok a => simp [bind, Except.bind]

@[simp] theorem name_of {name : String} {read : Reads α} {enter : σ → α → σ} :
    (Field.of name read enter).name = name := rfl

theorem update_of_eq_ok {name : String} {read : Reads α} {enter : σ → α → σ} {v : Json} {s t : σ} :
    (Field.of name read enter).update v s = .ok t ↔ ∃ a, read v = .ok a ∧ enter s a = t := by
  constructor
  · exact exists_of_map_eq_ok
  · rintro ⟨a, ha, rfl⟩
    simp [Field.of, ha, Except.map]

/-- A setting of a section: what it is called, how it is read, and what the section has for it. -/
structure Setting (σ : Type) where
  Value : Type
  name : String
  read : Reads Value
  get : σ → Value

namespace Setting

/-- The field enters the setting. -/
inductive IsOf (p : Setting σ) : Field σ → Prop where
  | of (enter : σ → p.Value → σ) (h : ∀ s a, p.get (enter s a) = a) :
    IsOf p (.of p.name p.read enter)

/-- The field leaves the setting as it is. -/
def Outlasts (p : Setting σ) (f : Field σ) : Prop :=
  ∀ v s t, f.update v s = .ok t → p.get t = p.get s

@[simp] theorem outlasts_of_iff {p : Setting σ} {name : String} {read : Reads α}
    {enter : σ → α → σ} : p.Outlasts (.of name read enter) ↔
      ∀ v a, read v = .ok a → ∀ s, p.get (enter s a) = p.get s := by
  simp only [Outlasts, update_of_eq_ok]
  constructor
  · intro h v a ha s
    exact h v s _ ⟨a, ha, rfl⟩
  · rintro h v s t ⟨a, ha, rfl⟩
    exact h v a ha s

theorem IsOf.name_eq {p : Setting σ} {f : Field σ} (h : p.IsOf f) : f.name = p.name := by
  cases h
  rfl

theorem IsOf.get_eq {p : Setting σ} {f : Field σ} (h : p.IsOf f) {v : Json} {s t : σ}
    (hupdate : f.update v s = .ok t) : p.read v = .ok (p.get t) := by
  cases h with
  | of enter hget =>
    obtain ⟨a, ha, rfl⟩ := update_of_eq_ok.mp hupdate
    rw [ha, hget]

theorem IsOf.succeeds_iff {p : Setting σ} {f : Field σ} (h : p.IsOf f) {v : Json} {s : σ} :
    (∃ t, f.update v s = .ok t) ↔ ∃ a, p.read v = .ok a := by
  cases h with
  | of enter hget =>
    simp only [update_of_eq_ok]
    constructor
    · rintro ⟨t, a, ha, -⟩
      exact ⟨a, ha⟩
    · rintro ⟨a, ha⟩
      exact ⟨enter s a, a, ha, rfl⟩

end Setting

/-- The settings of a section next to the fields that enter them. -/
structure Describes (settings : List (Setting σ)) (fields : List (Field σ)) : Prop where
  entered : List.Forall₂ Setting.IsOf settings fields
  apart : ∀ p ∈ settings, ∀ f ∈ fields, f.name ≠ p.name → p.Outlasts f
  names : (settings.map Setting.name).Nodup
  ext : ∀ s t : σ, (∀ p ∈ settings, p.get s = p.get t) → s = t

namespace Describes

variable {settings : List (Setting σ)} {fields : List (Field σ)} {p : Setting σ} {s t d : σ}

theorem names_eq (h : Describes settings fields) :
    fields.map Field.name = settings.map Setting.name := by
  have hentered := h.entered
  clear h
  induction hentered with
  | nil => rfl
  | cons hof _ ih => rw [List.map_cons, List.map_cons, hof.name_eq, ih]

theorem exists_isOf (h : Describes settings fields) (hp : p ∈ settings) :
    ∃ f, p.IsOf f ∧ fields.find? (fun f => f.name == p.name) = some f := by
  obtain ⟨hentered, -, hnames, -⟩ := h
  induction hentered with
  | nil => simp at hp
  | @cons q f _ _ hof _ ih =>
    rw [List.map_cons, List.nodup_cons] at hnames
    rcases List.mem_cons.mp hp with rfl | hp
    · exact ⟨f, hof, by simp [hof.name_eq]⟩
    · have hne : f.name ≠ p.name := by
        intro he
        have hmem : p.name ∈ _ := List.mem_map_of_mem hp
        exact hnames.1 (hof.name_eq.symm.trans he ▸ hmem)
      obtain ⟨g, hg, hfind⟩ := ih hp hnames.2
      exact ⟨g, hg, by rw [List.find?_cons_of_neg (by simpa using hne), hfind]⟩

theorem readEntry_succeeds_iff (h : Describes settings fields) {e : String × Json} :
    (∃ t, readEntry fields s e = .ok t) ↔
      ∀ p ∈ settings, p.name = e.1 → ∃ a, p.read e.2 = .ok a := by
  by_cases hknown : ∃ p ∈ settings, p.name = e.1
  · obtain ⟨p, hp, hname⟩ := hknown
    obtain ⟨f, hof, hfind⟩ := h.exists_isOf hp
    rw [hname] at hfind
    simp only [readEntry_known hfind, hof.succeeds_iff]
    constructor
    · intro hread q hq hqname
      obtain rfl : p = q := List.inj_on_of_nodup_map h.names hp hq (hname.trans hqname.symm)
      exact hread
    · exact fun hread => hread p hp hname
  · have hunknown : e.1 ∉ fields.map Field.name := by
      rw [h.names_eq]
      intro hmem
      obtain ⟨p, hp, hname⟩ := List.mem_map.mp hmem
      exact hknown ⟨p, hp, hname⟩
    simp only [readEntry_unknown hunknown, Except.ok.injEq, exists_eq', true_iff]
    exact fun p hp hname => absurd ⟨p, hp, hname⟩ hknown

theorem get_readEntry (h : Describes settings fields) (hp : p ∈ settings) {e : String × Json}
    (hread : readEntry fields s e = .ok t) :
    (e.1 = p.name → p.read e.2 = .ok (p.get t)) ∧ (e.1 ≠ p.name → p.get t = p.get s) := by
  constructor
  · intro hname
    obtain ⟨f, hof, hfind⟩ := h.exists_isOf hp
    rw [← hname] at hfind
    rw [readEntry_known hfind] at hread
    exact hof.get_eq hread
  · intro hname
    cases hfind : fields.find? fun f => f.name == e.1 with
    | none => simp_all [readEntry]
    | some f =>
      rw [readEntry_known hfind] at hread
      have hf : f.name = e.1 := by simpa using List.find?_some hfind
      exact h.apart p hp f (List.mem_of_find?_eq_some hfind) (hf ▸ hname) _ _ _ hread

theorem readEntries_succeeds_iff (h : Describes settings fields) {entries : List (String × Json)} :
    (∃ t, entries.foldlM (readEntry fields) s = .ok t) ↔
      ∀ e ∈ entries, ∀ p ∈ settings, p.name = e.1 → ∃ a, p.read e.2 = .ok a := by
  induction entries generalizing s with
  | nil => simp [pure, Except.pure]
  | cons e rest ih =>
    rw [List.forall_mem_cons, ← h.readEntry_succeeds_iff (s := s)]
    simp only [List.foldlM_cons, bind_eq_ok]
    constructor
    · rintro ⟨t, u, hu, ht⟩
      exact ⟨⟨u, hu⟩, ih.mp ⟨t, ht⟩⟩
    · rintro ⟨⟨u, hu⟩, hrest⟩
      obtain ⟨t, ht⟩ := ih.mpr hrest
      exact ⟨t, u, hu, ht⟩

theorem get_readEntries (h : Describes settings fields) (hp : p ∈ settings)
    {entries : List (String × Json)} (hnames : (entries.map Prod.fst).Nodup)
    (hread : entries.foldlM (readEntry fields) s = .ok t) :
    (∀ v, entries.lookup p.name = some v → p.read v = .ok (p.get t)) ∧
      (entries.lookup p.name = none → p.get t = p.get s) := by
  induction entries generalizing s with
  | nil =>
    obtain rfl : s = t := by simpa [pure, Except.pure] using hread
    simp
  | cons e rest ih =>
    obtain ⟨name, w⟩ := e
    rw [List.map_cons, List.nodup_cons] at hnames
    rw [List.foldlM_cons] at hread
    obtain ⟨u, hu, hrest⟩ := bind_eq_ok.mp hread
    obtain ⟨hfound, hleft⟩ := h.get_readEntry hp hu
    obtain ⟨hgiven, hmissing⟩ := ih hnames.2 hrest
    rw [Json.lookup_field]
    by_cases hname : p.name = name
    · have hnone : rest.lookup p.name = none :=
        Json.lookup_eq_none_of_not_mem fun hmem => hnames.1 (hname ▸ hmem)
      simp [hname, hmissing hnone, hfound hname.symm]
    · simp only [hname, if_false]
      exact ⟨hgiven, fun hnone => (hmissing hnone).trans (hleft (Ne.symm hname))⟩

section Reading

variable {title : String} {v base : Json}

theorem exists_entries (hv : v.Ordered) (ho : v.isObject) :
    ∃ entries, v = .obj entries ∧ (entries.map Prod.fst).Nodup := by
  cases hv with
  | obj names _ => exact ⟨_, rfl, names.imp ne_of_lt⟩
  | _ => cases ho

/-- An object can be read if the settings that it names can be. -/
theorem succeeds_iff (h : Describes settings fields) (hv : v.Ordered) (ho : v.isObject) :
    (∃ t, readSection title fields d v = .ok t) ↔
      ∀ p ∈ settings, ∀ w, v.field? p.name = some w → ∃ a, p.read w = .ok a := by
  obtain ⟨entries, rfl, hnames⟩ := exists_entries hv ho
  rw [readSection_obj, h.readEntries_succeeds_iff]
  constructor
  · intro hread p hp w hw
    exact hread _ (Json.mem_of_lookup_eq_some hw) p hp rfl
  · rintro hread ⟨name, w⟩ he p hp rfl
    exact hread p hp w ((Json.lookup_eq_some_iff_mem hnames).mpr he)

/-- A setting that is named has the value it is given, and all others have their default. -/
theorem get_eq (h : Describes settings fields) (hv : v.Ordered) (ho : v.isObject)
    (hread : readSection title fields d v = .ok t) (hp : p ∈ settings) :
    (∀ w, v.field? p.name = some w → p.read w = .ok (p.get t)) ∧
      (v.field? p.name = none → p.get t = p.get d) := by
  obtain ⟨entries, rfl, hnames⟩ := exists_entries hv ho
  rw [readSection_obj] at hread
  exact h.get_readEntries hp hnames hread

end Reading

end Describes

end Regroup.Config
