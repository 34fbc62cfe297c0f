import Regroup.Proofs.Leaves
import Regroup.Proofs.SectionReading

/-! Where the texts of the settings come from. Each is a default or the text of a leaf, whether its
section is read by name or by position; so what holds of all these texts holds of the settings. -/

namespace Regroup.Json

variable {T : String → Prop}

/-- The texts of all leaves have the property. -/
def AllTexts (T : String → Prop) (v : Json) : Prop := ∀ l ∈ v.leaves, ∀ s, l.value = .str s → T s

@[simp] theorem allTexts_str {s : String} : (str s).AllTexts T ↔ T s := by
  simp [AllTexts, leaves, leavesAt]

@[simp] theorem allTexts_arr {items : List Json} :
    (arr items).AllTexts T ↔ ∀ v ∈ items, v.AllTexts T := by
  simp only [AllTexts, leaves_arr, List.mem_flatMap, List.mem_map]
  constructor
  · intro h v hv l hl
    obtain ⟨i, hi⟩ := List.mem_iff_getElem?.mp hv
    exact h (l.below [.index i]) ⟨(v, i), List.mem_zipIdx_iff_getElem?.mpr hi, l, hl, rfl⟩
  · rintro h _ ⟨⟨v, i⟩, hv, l, hl, rfl⟩
    exact h v (List.mem_of_getElem? (List.mem_zipIdx_iff_getElem?.mp hv)) l hl

@[simp] theorem allTexts_obj {fields : List (String × Json)} :
    (obj fields).AllTexts T ↔ ∀ f ∈ fields, f.2.AllTexts T := by
  simp only [AllTexts, leaves_obj, List.mem_flatMap, List.mem_map]
  constructor
  · intro h f hf l hl
    exact h (l.below [.field f.1]) ⟨f, hf, l, hl, rfl⟩
  · rintro h _ ⟨f, hf, l, hl, rfl⟩
    exact h f hf l hl

end Regroup.Json

namespace Regroup.Config

variable {σ α ε : Type} {T : String → Prop}

theorem foldlM_keeps {P : σ → Prop} {g : σ → α → Except ε σ} {xs : List α}
    (hstep : ∀ x ∈ xs, ∀ s t, g s x = .ok t → P s → P t) {s t : σ}
    (h : xs.foldlM g s = .ok t) (hs : P s) : P t := by
  induction xs generalizing s with
  | nil =>
    obtain rfl : s = t := by simpa [pure, Except.pure] using h
    exact hs
  | cons x xs ih =>
    rw [List.foldlM_cons] at h
    obtain ⟨u, hu, hrest⟩ := bind_eq_ok.mp h
    exact ih (fun y hy => hstep y (List.mem_cons_of_mem _ hy)) hrest
      (hstep x List.mem_cons_self s u hu hs)

/-- Reading the field from a value whose texts have the property keeps it that those of the section,
given by a list, have it. -/
def Field.Keeps (T : String → Prop) (texts : σ → List String) (f : Field σ) : Prop :=
  ∀ v s t, v.AllTexts T → f.update v s = .ok t → (∀ x ∈ texts s, T x) → ∀ x ∈ texts t, T x

theorem Field.keeps_of {texts : σ → List String} {name : String} {read : Reads α}
    {enter : σ → α → σ}
    (h : ∀ v a s, v.AllTexts T → read v = .ok a → (∀ x ∈ texts s, T x) →
      ∀ x ∈ texts (enter s a), T x) : (Field.of name read enter).Keeps T texts := by
  intro v s t hv hupdate hs
  obtain ⟨a, ha, rfl⟩ := update_of_eq_ok.mp hupdate
  exact h v a s hv ha hs

theorem Field.keeps_of_untouched {texts : σ → List String} {name : String} {read : Reads α}
    {enter : σ → α → σ} (h : ∀ s a, texts (enter s a) = texts s) :
    (Field.of name read enter).Keeps T texts :=
  Field.keeps_of fun _ a s _ _ hs => (h s a).symm ▸ hs

theorem readSection_keeps {title : String} {fields : List (Field σ)} {texts : σ → List String}
    {d t : σ} {v : Json} (hfields : ∀ f ∈ fields, f.Keeps T texts) (hd : ∀ x ∈ texts d, T x)
    (hv : v.AllTexts T) (h : readSection title fields d v = .ok t) : ∀ x ∈ texts t, T x := by
  cases v with
  | obj entries =>
    rw [readSection_obj] at h
    refine foldlM_keeps (P := fun s => ∀ x ∈ texts s, T x) (fun e he s t hread hs => ?_) h hd
    cases hfind : fields.find? fun f => f.name == e.1 with
    | none => simp_all [readEntry]
    | some f =>
      rw [readEntry_known hfind] at hread
      have hf : f ∈ fields := List.mem_of_find?_eq_some hfind
      exact hfields f hf e.2 s t (Json.allTexts_obj.mp hv e he) hread hs
  | arr items =>
    rw [readSection_arr] at h
    obtain ⟨u, hu, hlength⟩ := bind_eq_ok.mp h
    obtain rfl : u = t := by
      split at hlength
      · cases hlength
      · exact Except.ok.inj hlength
    refine foldlM_keeps (P := fun s => ∀ x ∈ texts s, T x) (fun e he s t hread hs => ?_) hu hd
    obtain ⟨hf, hitem⟩ := List.of_mem_zip he
    exact hfields e.1 hf e.2 s t (Json.allTexts_arr.mp hv _ hitem) hread hs
  | _ => cases h

theorem text_of_readString {v : Json} {s : String} (hv : v.AllTexts T) (h : readString v = .ok s) :
    T s := by
  cases v with
  | str r =>
    obtain rfl : r = s := Except.ok.inj h
    exact Json.allTexts_str.mp hv
  | _ => cases h

theorem texts_of_readStrings {v : Json} {l : List String} (hv : v.AllTexts T)
    (h : readStrings v = .ok l) : ∀ s ∈ l, T s := by
  cases v with
  | arr items =>
    rw [Json.allTexts_arr] at hv
    rw [readStrings] at h
    induction items generalizing l with
    | nil =>
      obtain rfl : [] = l := Except.ok.inj h
      exact List.forall_mem_nil _
    | cons v rest ih =>
      rw [List.forall_mem_cons] at hv
      rw [List.mapM_cons] at h
      obtain ⟨s, hs, h⟩ := bind_eq_ok.mp h
      obtain ⟨more, hmore, h⟩ := bind_eq_ok.mp h
      obtain rfl : s :: more = l := Except.ok.inj h
      exact List.forall_mem_cons.mpr ⟨text_of_readString hv.1 hs, ih hv.2 hmore⟩
  | _ => cases h

namespace ReconcileSection

def texts (s : ReconcileSection) : List String := s.defaultGroupName :: s.excluded

theorem keeps : ∀ f ∈ fields, f.Keeps T texts := by
  simp only [fields, List.forall_mem_cons]
  refine ⟨Field.keeps_of fun v a s hv ha hs => ?_, Field.keeps_of_untouched fun _ _ => rfl,
    Field.keeps_of_untouched fun _ _ => rfl, Field.keeps_of_untouched fun _ _ => rfl,
    Field.keeps_of_untouched fun _ _ => rfl, Field.keeps_of fun v a s hv ha hs => ?_,
    Field.keeps_of_untouched fun _ _ => rfl, List.forall_mem_nil _⟩
  · rw [texts, List.forall_mem_cons] at hs ⊢
    exact ⟨text_of_readString hv ha, hs.2⟩
  · rw [texts, List.forall_mem_cons] at hs ⊢
    exact ⟨hs.1, texts_of_readStrings hv ha⟩

end ReconcileSection

namespace StoreSection

def texts (s : StoreSection) : List String := [s.databaseVariable]

theorem keeps : ∀ f ∈ fields, f.Keeps T texts := by
  simp only [fields, List.forall_mem_cons]
  refine ⟨Field.keeps_of fun v a s hv ha hs => ?_, Field.keeps_of_untouched fun _ _ => rfl,
    List.forall_mem_nil _⟩
  rw [texts, List.forall_mem_singleton]
  exact text_of_readString hv ha

end StoreSection

namespace SequenceSection

def texts (s : SequenceSection) : List String :=
  [s.counters.edge, s.counters.group, s.redisVariable]

theorem keeps : ∀ f ∈ fields, f.Keeps T texts := by
  simp only [fields, List.forall_mem_cons]
  refine ⟨Field.keeps_of_untouched fun _ _ => rfl, Field.keeps_of fun v a s hv ha hs => ?_,
    Field.keeps_of fun v a s hv ha hs => ?_, Field.keeps_of fun v a s hv ha hs => ?_,
    Field.keeps_of_untouched fun _ _ => rfl, List.forall_mem_nil _⟩ <;>
  · have htext := text_of_readString hv ha
    simp only [texts, List.forall_mem_cons] at hs ⊢
    simp [htext, hs]

end SequenceSection

namespace LoggingSection

def texts (s : LoggingSection) : List String := [s.level]

theorem keeps : ∀ f ∈ fields, f.Keeps T texts := by
  simp only [fields, List.forall_mem_cons]
  refine ⟨Field.keeps_of fun v a s hv ha hs => ?_, Field.keeps_of_untouched fun _ _ => rfl,
    List.forall_mem_nil _⟩
  rw [texts, List.forall_mem_singleton]
  exact text_of_readString hv ha

end LoggingSection

namespace Settings

/-- All settings that are texts or lists of texts. -/
def texts (s : Settings) : List String :=
  s.reconcile.texts ++ s.store.texts ++ s.sequence.texts ++ s.logging.texts

theorem forall_mem_texts {s : Settings} : (∀ x ∈ s.texts, T x) ↔
    (∀ x ∈ s.reconcile.texts, T x) ∧ (∀ x ∈ s.store.texts, T x) ∧
      (∀ x ∈ s.sequence.texts, T x) ∧ ∀ x ∈ s.logging.texts, T x := by
  simp only [texts, List.forall_mem_append, and_assoc]

/-- What holds of the texts of all leaves and of all defaults holds of all settings that are read. -/
theorem texts_of_ofJson {v : Json} {s : Settings} (hd : ∀ x ∈ ({} : Settings).texts, T x)
    (hv : v.AllTexts T) (h : ofJson v = .ok s) : ∀ x ∈ s.texts, T x := by
  obtain ⟨hreconcile, hstore, hsequence, hlogging⟩ := forall_mem_texts.mp hd
  refine readSection_keeps ?_ hd hv h
  simp only [fields, List.forall_mem_cons]
  refine ⟨Field.keeps_of fun w a s hw ha hs => ?_, Field.keeps_of fun w a s hw ha hs => ?_,
    Field.keeps_of fun w a s hw ha hs => ?_, Field.keeps_of fun w a s hw ha hs => ?_,
    List.forall_mem_nil _⟩ <;> rw [forall_mem_texts] at hs ⊢
  · exact ⟨readSection_keeps ReconcileSection.keeps hreconcile hw ha, hs.2⟩
  · exact ⟨hs.1, readSection_keeps StoreSection.keeps hstore hw ha, hs.2.2⟩
  · exact ⟨hs.1, hs.2.1, readSection_keeps SequenceSection.keeps hsequence hw ha, hs.2.2.2⟩
  · exact ⟨hs.1, hs.2.1, hs.2.2.1, readSection_keeps LoggingSection.keeps hlogging hw ha⟩

end Settings

end Regroup.Config
