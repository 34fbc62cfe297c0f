import Mathlib.Data.List.TakeWhile
import Regroup.Proofs.Layering
import Regroup.Proofs.Pointers
import Regroup.Proofs.SettingsTexts

/-! The guard against secrets finds the first text that looks like one wherever it stands, and its
message depends on the place alone: texts that look like secrets may be exchanged for others. -/

namespace Regroup.Text

/-- The core is what is left of the text without the blanks at its ends. -/
def Trimmed (text core : List Char) : Prop :=
  (∃ front back, text = front ++ core ++ back ∧ ∀ c ∈ front ++ back, isBlankChar c) ∧
    ∀ c, c ∈ core.head? ∨ c ∈ core.getLast? → isBlankChar c = false

theorem trimStartChars_eq_nil {cs : List Char} (h : ∀ c ∈ cs, isBlankChar c) :
    trimStartChars cs = [] :=
  List.dropWhile_eq_nil_iff.mpr h

theorem trimStartChars_append {front cs : List Char} (hfront : ∀ c ∈ front, isBlankChar c)
    (h : ∀ c ∈ cs.head?, isBlankChar c = false) : trimStartChars (front ++ cs) = cs := by
  rw [trimStartChars, List.dropWhile_append_of_pos hfront]
  cases cs with
  | nil => rfl
  | cons c cs => exact List.dropWhile_cons_of_neg (by simp [h c rfl])

theorem exists_append_trimStartChars (cs : List Char) : ∃ front, cs = front ++ trimStartChars cs ∧
    (∀ c ∈ front, isBlankChar c) ∧ ∀ c ∈ (trimStartChars cs).head?, isBlankChar c = false := by
  refine ⟨cs.takeWhile isBlankChar, List.takeWhile_append_dropWhile.symm,
    fun c => List.mem_takeWhile_imp, fun c hc => ?_⟩
  have hfirst : (cs.dropWhile isBlankChar).head? = some c := hc
  have hhead := List.head?_dropWhile_not isBlankChar cs
  rwa [hfirst] at hhead

theorem Trimmed.eq_trimChars {text core : List Char} (h : Trimmed text core) :
    core = trimChars text := by
  obtain ⟨⟨front, back, rfl, hblank⟩, hends⟩ := h
  rw [List.forall_mem_append] at hblank
  by_cases hcore : core = []
  · subst hcore
    rw [trimChars, List.append_nil, trimStartChars_eq_nil (List.forall_mem_append.mpr hblank)]
    rfl
  · have hfirst : ∀ c ∈ (core ++ back).head?, isBlankChar c = false := by
      rw [List.head?_append_of_ne_nil core hcore]
      exact fun c hc => hends c (.inl hc)
    have hlast : ∀ c ∈ core.reverse.head?, isBlankChar c = false := by
      rw [List.head?_reverse]
      exact fun c hc => hends c (.inr hc)
    rw [trimChars, List.append_assoc, trimStartChars_append hblank.1 hfirst, trimEndChars,
      List.reverse_append, trimStartChars_append (by simpa using hblank.2) hlast,
      List.reverse_reverse]

theorem trimmed_trimChars (text : List Char) : Trimmed text (trimChars text) := by
  obtain ⟨front, htext, hfront, hfirst⟩ := exists_append_trimStartChars text
  obtain ⟨back, hrest, hback, hlast⟩ := exists_append_trimStartChars (trimStartChars text).reverse
  have hrest : trimStartChars text = trimChars text ++ back.reverse := by
    rw [← List.reverse_reverse (trimStartChars text), hrest, List.reverse_append]
    rfl
  refine ⟨⟨front, back.reverse, ?_, ?_⟩, ?_⟩
  · rw [List.append_assoc, ← hrest]
    exact htext
  · rw [List.forall_mem_append]
    exact ⟨hfront, by simpa using hback⟩
  · rintro c (hc | hc)
    · refine hfirst c ?_
      have hcore : trimChars text ≠ [] := List.ne_nil_of_mem (List.mem_of_mem_head? hc)
      rwa [hrest, List.head?_append_of_ne_nil _ hcore]
    · rw [trimChars, trimEndChars, List.getLast?_reverse] at hc
      exact hlast c hc

theorem trimmed_iff {text core : List Char} : Trimmed text core ↔ core = trimChars text := by
  constructor
  · exact Trimmed.eq_trimChars
  · rintro rfl
    exact trimmed_trimChars text

end Regroup.Text

namespace Regroup.Config

open Json (Leaf)
open Yaml (Value)

/-- Without the blanks at its ends the text begins like a credential. -/
def SecretLooking (s : String) : Prop :=
  ∃ core, Text.Trimmed s.toList core ∧ ∃ start ∈ secretStarts, start.toList <+: core

theorem shortestSecret_le_of_mem :
    ∀ start ∈ secretStarts, shortestSecret ≤ String.utf8Len start.toList := by
  decide

theorem isSecret_iff {s : String} : isSecret s ↔ SecretLooking s := by
  have hcore : (Text.trim s).toList = Text.trimChars s.toList := String.toList_ofList
  simp only [SecretLooking, Text.trimmed_iff, exists_eq_left, ← hcore]
  -- a text that is too short begins with none of them
  by_cases hshort : (Text.trim s).utf8ByteSize < shortestSecret
  · simp only [isSecret, hshort, if_true, Bool.false_eq_true, false_iff, not_exists, not_and]
    rintro start hstart ⟨rest, hrest⟩
    have hlength : shortestSecret ≤ (Text.trim s).utf8ByteSize := by
      rw [← String.ofList_toList (s := Text.trim s), String.utf8ByteSize_ofList, ← hrest,
        String.utf8Len_append]
      exact Nat.le_add_right_of_le (shortestSecret_le_of_mem start hstart)
    exact absurd hshort (Nat.not_lt.mpr hlength)
  · simp only [isSecret, hshort, if_false, List.any_eq_true, List.isPrefixOf_iff_prefix]

/-- At the path stands a text that looks like a secret. -/
def SecretAt (v : Json) (path : List Json.Step) : Prop :=
  ∃ s, v.part? path = some (.str s) ∧ SecretLooking s

/-- All other such texts come later, by the names in the order of their bytes and the items by place. -/
def FirstSecret (v : Json) (path : List Json.Step) : Prop :=
  SecretAt v path ∧ ∀ other, SecretAt v other → other = path ∨ List.Lex Json.Step.Before path other

theorem leafIsSecret_iff {l : Leaf} :
    leafIsSecret l ↔ ∃ s, l.value = .str s ∧ SecretLooking s := by
  obtain ⟨path, v⟩ := l
  cases v with
  | str s => simp [leafIsSecret, isSecret_iff]
  | _ => simp [leafIsSecret]

section Guard

variable {v w : Json} {path other : List Json.Step} {e : LoadError}

theorem secretAt_iff (hv : v.Ordered) :
    SecretAt v path ↔ ∃ l ∈ v.leaves, leafIsSecret l ∧ l.path = path := by
  simp only [leafIsSecret_iff, Json.mem_leaves hv]
  constructor
  · rintro ⟨s, hpart, hs⟩
    exact ⟨⟨path, .str s⟩, ⟨hpart, rfl⟩, ⟨s, rfl, hs⟩, rfl⟩
  · rintro ⟨l, ⟨hpart, -⟩, ⟨s, hvalue, hs⟩, rfl⟩
    exact ⟨s, hvalue ▸ hpart, hs⟩

theorem FirstSecret.unique (hp : FirstSecret v path) (ho : FirstSecret v other) : path = other := by
  rcases ho.2 path hp.1 with h | h
  · exact h
  · rcases hp.2 other ho.1 with h' | h'
    · exact h'.symm
    · exact absurd h' (asymm h)

theorem firstSecret_of_find? (hv : v.Ordered) {l : Leaf}
    (h : v.leaves.find? leafIsSecret = some l) : FirstSecret v l.path := by
  obtain ⟨hl, before, after, hsplit, hbefore⟩ := List.find?_eq_some_iff_append.mp h
  have hmem : l ∈ v.leaves := List.mem_of_find?_eq_some h
  refine ⟨(secretAt_iff hv).mpr ⟨l, hmem, hl, rfl⟩, fun other ho => ?_⟩
  obtain ⟨m, hm, hsecret, rfl⟩ := (secretAt_iff hv).mp ho
  have hsorted := Json.leaves_pairwise hv
  rw [hsplit] at hm hsorted
  rcases List.mem_append.mp hm with hm | hm
  · have hclean := hbefore m hm
    simp [hsecret] at hclean
  · rcases List.mem_cons.mp hm with rfl | hm
    · exact .inl rfl
    · exact .inr ((List.pairwise_cons.mp (List.pairwise_append.mp hsorted).2.1).1 m hm)

theorem guardSecrets_eq_error_iff (hv : v.Ordered) :
    guardSecrets v = .error e ↔ ∃ path, FirstSecret v path ∧ e = .secret (Json.pointer path) := by
  cases hfind : v.leaves.find? leafIsSecret with
  | none =>
    have hnone : ¬ ∃ path, FirstSecret v path ∧ e = .secret (Json.pointer path) := by
      rintro ⟨path, hfirst, -⟩
      obtain ⟨l, hl, hsecret, -⟩ := (secretAt_iff hv).mp hfirst.1
      exact List.find?_eq_none.mp hfind l hl hsecret
    simp [guardSecrets, firstSecret?, hfind, hnone]
  | some l =>
    have hfirst := firstSecret_of_find? hv hfind
    simp only [guardSecrets, firstSecret?, hfind, Option.map_some, Except.error.injEq]
    constructor
    · rintro rfl
      exact ⟨l.path, hfirst, rfl⟩
    · rintro ⟨path, hpath, rfl⟩
      rw [hpath.unique hfirst]
      rfl

theorem guardSecrets_fails_iff (hv : v.Ordered) :
    (∃ place, guardSecrets v = .error (.secret place)) ↔ ∃ path, SecretAt v path := by
  constructor
  · rintro ⟨place, hplace⟩
    obtain ⟨path, hfirst, -⟩ := (guardSecrets_eq_error_iff hv).mp hplace
    exact ⟨path, hfirst.1⟩
  · rintro ⟨path, hpath⟩
    obtain ⟨l, hl, hsecret, -⟩ := (secretAt_iff hv).mp hpath
    obtain ⟨m, hm⟩ := Option.isSome_iff_exists.mp (List.find?_isSome.mpr ⟨l, hl, hsecret⟩)
    exact ⟨m.pointer, (guardSecrets_eq_error_iff hv).mpr ⟨m.path, firstSecret_of_find? hv hm, rfl⟩⟩

/-- The same scalar, or two texts that both look like secrets. -/
inductive SameButSecret : Json → Json → Prop where
  | same (x : Json) : SameButSecret x x
  | secrets {s t : String} (hs : SecretLooking s) (ht : SecretLooking t) :
    SameButSecret (.str s) (.str t)

/-- The scalars stand at the same places and differ only where both look like secrets. -/
structure DifferInSecrets (v w : Json) : Prop where
  forth : ∀ path x, v.part? path = some x → x.isScalar →
    ∃ y, w.part? path = some y ∧ SameButSecret x y
  back : ∀ path y, w.part? path = some y → y.isScalar →
    ∃ x, v.part? path = some x ∧ SameButSecret x y

theorem DifferInSecrets.of_leaves (hv : v.Ordered) (hw : w.Ordered)
    (hforth : ∀ l ∈ v.leaves, ∃ m ∈ w.leaves, m.path = l.path ∧ SameButSecret l.value m.value)
    (hback : ∀ m ∈ w.leaves, ∃ l ∈ v.leaves, l.path = m.path ∧ SameButSecret l.value m.value) :
    DifferInSecrets v w where
  forth path x hpart hscalar := by
    obtain ⟨m, hm, rfl, hsame⟩ := hforth ⟨path, x⟩ ((Json.mem_leaves hv).mpr ⟨hpart, hscalar⟩)
    exact ⟨m.value, ((Json.mem_leaves hw).mp hm).1, hsame⟩
  back path y hpart hscalar := by
    obtain ⟨l, hl, rfl, hsame⟩ := hback ⟨path, y⟩ ((Json.mem_leaves hw).mpr ⟨hpart, hscalar⟩)
    exact ⟨l.value, ((Json.mem_leaves hv).mp hl).1, hsame⟩

theorem DifferInSecrets.secretAt_iff (h : DifferInSecrets v w) :
    SecretAt v path ↔ SecretAt w path := by
  constructor
  · rintro ⟨s, hpart, hs⟩
    obtain ⟨y, hy, hsame⟩ := h.forth path _ hpart rfl
    cases hsame with
    | same => exact ⟨s, hy, hs⟩
    | @secrets _ t _ ht => exact ⟨t, hy, ht⟩
  · rintro ⟨t, hpart, ht⟩
    obtain ⟨x, hx, hsame⟩ := h.back path _ hpart rfl
    cases hsame with
    | same => exact ⟨t, hx, ht⟩
    | @secrets s _ hs _ => exact ⟨s, hx, hs⟩

theorem DifferInSecrets.firstSecret_iff (h : DifferInSecrets v w) :
    FirstSecret v path ↔ FirstSecret w path := by
  simp only [FirstSecret, h.secretAt_iff]

/-- What looks like a secret does not reach the message. -/
theorem DifferInSecrets.guardSecrets_eq_error_iff (h : DifferInSecrets v w) (hv : v.Ordered)
    (hw : w.Ordered) : guardSecrets v = .error e ↔ guardSecrets w = .error e := by
  rw [Config.guardSecrets_eq_error_iff hv, Config.guardSecrets_eq_error_iff hw]
  simp only [h.firstSecret_iff]

theorem allTexts_of_guardSecrets {c : Loaded} (h : guardSecrets v = .ok c) :
    c.json.AllTexts fun s => ¬ SecretLooking s := by
  cases hfind : v.leaves.find? leafIsSecret with
  | none =>
    obtain rfl : ⟨v⟩ = c := by simpa [guardSecrets, firstSecret?, hfind] using h
    intro l hl s hvalue hs
    exact List.find?_eq_none.mp hfind l hl (leafIsSecret_iff.mpr ⟨s, hvalue, hs⟩)
  | some l => simp [guardSecrets, firstSecret?, hfind] at h

end Guard

theorem not_secretLooking_default : ∀ s ∈ ({} : Settings).texts, ¬ SecretLooking s := by
  simp only [← isSecret_iff]
  decide +kernel

/-- Layers that can be merged are refused if the result has a text that looks like a secret anywhere,
with the place of the first one and whatever it is. So no setting that is read looks like one. -/
theorem ofLayers_guards {layers : List Value} {values : List Json}
    (h : layerValues? layers = some values) :
    ∃ merged, mergeLayers layers = .ok merged ∧
      (∀ texts, texts.mapM Value.ofText? = some layers → ofTexts texts = ofLayers layers) ∧
      ((∃ place, ofLayers layers = .error (.secret place)) ↔ ∃ path, SecretAt merged path) ∧
      (∀ e, ofLayers layers = .error e ↔
        ∃ path, FirstSecret merged path ∧ e = .secret (Json.pointer path)) ∧
      (∀ others other, mergeLayers others = .ok other → DifferInSecrets merged other →
        ∀ e, ofLayers layers = .error e ↔ ofLayers others = .error e) ∧
      ∀ c s, ofLayers layers = .ok c → Settings.ofJson c.json = .ok s →
        ∀ t ∈ s.texts, ¬ SecretLooking t := by
  have hmerged : mergeLayers layers = .ok (values.foldl Json.merge (.obj [])) := by
    rw [mergeLayers_eq, h]
  have hload {layers : List Value} {merged : Json} (hmerged : mergeLayers layers = .ok merged) :
      ofLayers layers = guardSecrets merged := by
    rw [ofLayers_eq, hmerged]
    rfl
  have hordered := ordered_of_mergeLayers hmerged
  refine ⟨_, hmerged, fun texts => ofTexts_eq, ?_, fun e => ?_, ?_, ?_⟩
  · rw [hload hmerged]
    exact guardSecrets_fails_iff hordered
  · rw [hload hmerged]
    exact guardSecrets_eq_error_iff hordered
  · intro others other hother hdiffer e
    rw [hload hmerged, hload hother]
    exact hdiffer.guardSecrets_eq_error_iff hordered (ordered_of_mergeLayers hother)
  · intro c s hc hs
    rw [hload hmerged] at hc
    exact Settings.texts_of_ofJson not_secretLooking_default (allTexts_of_guardSecrets hc) hs

/-- Blanks and a place in a list hide nothing, and the message is that of any other secret there. -/
theorem ofLayers_guards_padded :
    let layers (s : String) : List Value := [.map [(.str "hosts", .seq [.str "db", .str s])], .null]
    (∃ place, ofLayers (layers "\t postgres://db ") = .error (.secret place)) ∧
      ∀ e, ofLayers (layers "\t postgres://db ") = .error e ↔ ofLayers (layers "AKIA") = .error e := by
  intro layers
  let config (s : String) : Json := .obj [("hosts", .arr [.str "db", .str s])]
  have hvalues (s : String) : layerValues? (layers s) = some [config s] := rfl
  have hmerged (s : String) : mergeLayers (layers s) = .ok (config s) := rfl
  have hordered (s : String) : (config s).Ordered := ordered_of_mergeLayers (hmerged s)
  have hpadded : SecretLooking "\t postgres://db " := isSecret_iff.mp (by decide +kernel)
  have hbare : SecretLooking "AKIA" := isSecret_iff.mp (by decide +kernel)
  have hleaves (s : String) : (config s).leaves = [⟨[.field "hosts", .index 0], .str "db"⟩,
      ⟨[.field "hosts", .index 1], .str s⟩] := rfl
  have hdiffer : DifferInSecrets (config "\t postgres://db ") (config "AKIA") := by
    refine .of_leaves (hordered _) (hordered _) ?_ ?_ <;>
    · rw [hleaves, hleaves]
      simp only [List.forall_mem_cons]
      exact ⟨⟨_, .head _, rfl, .same _⟩, ⟨_, .tail _ (.head _), rfl, .secrets hpadded hbare⟩,
        List.forall_mem_nil _⟩
  obtain ⟨merged, hvalue, -, hfails, -, hblind, -⟩ := ofLayers_guards (hvalues "\t postgres://db ")
  obtain rfl : config "\t postgres://db " = merged := Except.ok.inj ((hmerged _).symm.trans hvalue)
  exact ⟨hfails.mpr ⟨[.field "hosts", .index 1], _, rfl, hpadded⟩,
    hblind _ _ (hmerged "AKIA") hdiffer⟩

end Regroup.Config
