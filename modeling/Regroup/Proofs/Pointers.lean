import Mathlib.Data.List.Nodup
import Regroup.Proofs.JsonText
import Regroup.Proofs.Leaves

/-! A pointer is read back step by step: a step is spelt without a slash, and no two names and no two
places are spelt alike. A name may be spelt like a place, but no value has both. -/

namespace Regroup.Json

/-- Nothing, or a slash and what follows it. -/
def AfterStep (cs : List Char) : Prop := ∀ c ∈ cs.head?, c = '/'

theorem AfterStep.nil : AfterStep [] := fun _ hc => nomatch hc

theorem AfterStep.slash (cs : List Char) : AfterStep ('/' :: cs) := fun _ hc =>
  (Option.mem_some.mp hc).symm

/-- What is free of slashes ends where the first slash is. -/
theorem segment_inj {a b xs ys : List Char} (ha : '/' ∉ a) (hb : '/' ∉ b) (hx : AfterStep xs)
    (hy : AfterStep ys) (h : a ++ xs = b ++ ys) : a = b ∧ xs = ys := by
  refine span_inj (p := (· ≠ '/')) ?_ ?_ ?_ ?_ h
  · exact fun c hc heq => ha (heq ▸ hc)
  · exact fun c hc heq => hb (heq ▸ hc)
  · exact fun c hc hne => hne (hx c hc)
  · exact fun c hc hne => hne (hy c hc)

theorem slash_not_mem_escapeName (name : List Char) : '/' ∉ escapeName name := by
  simp only [escapeName, List.mem_flatMap, not_exists, not_and]
  intro c _ hmem
  split_ifs at hmem with htilde hslash
  · simp at hmem
  · simp at hmem
  · exact hslash (List.mem_singleton.mp hmem).symm

theorem escapeName_cons (c : Char) (name : List Char) : escapeName (c :: name) =
    (if c = '~' then ['~', '0'] else if c = '/' then ['~', '1'] else [c]) ++ escapeName name :=
  rfl

theorem escapeName_cons_ne_nil (c : Char) (name : List Char) : escapeName (c :: name) ≠ [] := by
  rw [escapeName_cons]
  split_ifs <;> simp

/-- What an escaped name begins with tells the first character and where the next one begins. -/
theorem eq_of_escapeName_eq {a b : List Char} (h : escapeName a = escapeName b) : a = b := by
  induction a generalizing b with
  | nil =>
    cases b with
    | nil => rfl
    | cons d b => exact absurd h.symm (escapeName_cons_ne_nil d b)
  | cons c a ih =>
    cases b with
    | nil => exact absurd h (escapeName_cons_ne_nil c a)
    | cons d b =>
      rw [escapeName_cons, escapeName_cons] at h
      split_ifs at h <;> grind

theorem Step.chars_index (i : Nat) : (Step.index i).chars = Nat.toDigits 10 i := Nat.toList_repr

theorem Step.isDigit_of_mem_chars {i : Nat} {c : Char} (h : c ∈ (Step.index i).chars) :
    c.isDigit := by
  rw [Step.chars_index] at h
  exact Nat.isDigit_of_mem_toDigits (by decide) (by decide) h

theorem Step.slash_not_mem_chars (s : Step) : '/' ∉ s.chars := by
  cases s with
  | field name => exact slash_not_mem_escapeName _
  | index i =>
    intro hmem
    have hdigit := Step.isDigit_of_mem_chars hmem
    exact absurd hdigit (by decide)

theorem Step.field_of_chars_eq {a b : String} (h : (Step.field a).chars = (Step.field b).chars) :
    a = b :=
  String.toList_inj.mp (eq_of_escapeName_eq h)

theorem Step.index_of_chars_eq {i j : Nat} (h : (Step.index i).chars = (Step.index j).chars) :
    i = j := by
  rw [Step.chars_index, Step.chars_index] at h
  exact toDigits_inj h

/-- The pointer, except that the root is spelt as nothing. -/
def spell (path : List Step) : List Char := path.flatMap fun s => '/' :: s.chars

theorem spell_cons (s : Step) (path : List Step) :
    spell (s :: path) = '/' :: (s.chars ++ spell path) := rfl

theorem toList_pointer {path : List Step} (h : path ≠ []) : (pointer path).toList = spell path := by
  have hpath : path.isEmpty = false := by simpa using h
  simp [pointer, hpath, spell]

/-- The root shares its pointer with the field of the empty name. -/
theorem pointer_nil : pointer [] = pointer [.field ""] := rfl

theorem afterStep_spell_append (path : List Step) {back : List Char} (h : AfterStep back) :
    AfterStep (spell path ++ back) := by
  cases path with
  | nil => exact h
  | cons s path => exact .slash _

/-- A path that is spelt as the beginning of another one, up to the end of a step, is its beginning. -/
theorem chars_prefix {p q : List Step} {back : List Char} (hback : AfterStep back)
    (h : spell q = spell p ++ back) : p.map Step.chars <+: q.map Step.chars := by
  induction p generalizing q with
  | nil => exact List.nil_prefix
  | cons s p ih =>
    cases q with
    | nil => cases h
    | cons t q =>
      rw [spell_cons, spell_cons, List.cons_append, List.append_assoc] at h
      have hq : AfterStep (spell q) := by simpa using afterStep_spell_append q .nil
      obtain ⟨hchars, hrest⟩ := segment_inj t.slash_not_mem_chars s.slash_not_mem_chars hq
        (afterStep_spell_append p hback) (List.cons.inj h).2
      rw [List.map_cons, List.map_cons, hchars]
      exact List.cons_prefix_cons.mpr ⟨rfl, ih hrest⟩

theorem chars_eq_of_spell_eq {p q : List Step} (h : spell p = spell q) :
    p.map Step.chars = q.map Step.chars := by
  have hfront := chars_prefix (p := p) (q := q) .nil (by rw [h, List.append_nil])
  have hback := chars_prefix (p := q) (q := p) .nil (by rw [h, List.append_nil])
  exact hfront.eq_of_length_le hback.length_le

/-- In one value, steps that are spelt alike are one step. -/
theorem step_eq_of_chars_eq {v w x : Json} {s t : Step} (hs : v.child? s = some w)
    (ht : v.child? t = some x) (h : s.chars = t.chars) : s = t := by
  match s, t with
  | .field a, .field b => rw [Step.field_of_chars_eq h]
  | .index i, .index j => rw [Step.index_of_chars_eq h]
  | .field a, .index i => cases v <;> simp [child?, field?] at hs ht
  | .index i, .field a => cases v <;> simp [child?, field?] at hs ht

theorem path_eq_of_chars_eq {v x y : Json} {p q : List Step} (hp : v.part? p = some x)
    (hq : v.part? q = some y) (h : p.map Step.chars = q.map Step.chars) : p = q := by
  induction p generalizing v q with
  | nil => exact (List.map_eq_nil_iff.mp h.symm).symm
  | cons s p ih =>
    cases q with
    | nil => cases h
    | cons t q =>
      obtain ⟨w, hw, hpw⟩ := Option.bind_eq_some_iff.mp hp
      obtain ⟨u, hu, hqu⟩ := Option.bind_eq_some_iff.mp hq
      obtain ⟨hchars, hrest⟩ := List.cons.inj h
      obtain rfl := step_eq_of_chars_eq hw hu hchars
      obtain rfl := Option.some.inj (hw.symm.trans hu)
      rw [ih hpw hqu hrest]

theorem eq_nil_of_part?_of_scalar {v x : Json} {path : List Step} (hv : v.isScalar)
    (h : v.part? path = some x) : path = [] := by
  cases path with
  | nil => rfl
  | cons s rest => simp [part?, child?_of_scalar hv] at h

/-- Scalars at different paths of one value have different pointers. -/
theorem path_eq_of_pointer_eq {v x y : Json} {p q : List Step} (hp : v.part? p = some x)
    (hq : v.part? q = some y) (hx : x.isScalar) (hy : y.isScalar) (h : pointer p = pointer q) :
    p = q := by
  by_cases hpnil : p = []
  · subst hpnil
    obtain rfl : v = x := Option.some.inj hp
    exact (eq_nil_of_part?_of_scalar hx hq).symm
  by_cases hqnil : q = []
  · subst hqnil
    obtain rfl : v = y := Option.some.inj hq
    exact eq_nil_of_part?_of_scalar hy hp
  have hspell : spell p = spell q := by rw [← toList_pointer hpnil, h, toList_pointer hqnil]
  exact path_eq_of_chars_eq hp hq (chars_eq_of_spell_eq hspell)

/-- No two leaves have one pointer. -/
theorem leaves_pointers_nodup {v : Json} (hv : v.Ordered) : (v.leaves.map Leaf.pointer).Nodup := by
  have hpointers : v.leaves.map Leaf.pointer = (v.leaves.map Leaf.path).map pointer :=
    List.map_map.symm
  rw [hpointers]
  refine List.Nodup.map_on ?_ (leaves_paths_nodup hv)
  simp only [List.forall_mem_map]
  intro l hl m hm h
  obtain ⟨hlpart, hlscalar⟩ := (mem_leaves hv).mp hl
  obtain ⟨hmpart, hmscalar⟩ := (mem_leaves hv).mp hm
  exact path_eq_of_pointer_eq hlpart hmpart hlscalar hmscalar h

end Regroup.Json
