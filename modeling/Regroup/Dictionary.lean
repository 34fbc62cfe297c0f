/-!
Finite maps as lists of pairs without repeated keys. A key keeps the place where it was first
entered, so a dictionary reads in the order in which its keys arrived.
-/

namespace Regroup

structure Dictionary (κ ν : Type) where
  entries : List (κ × ν)
  nodup : (entries.map Prod.fst).Nodup

namespace Dictionary

variable {κ ν : Type}

def empty : Dictionary κ ν := ⟨[], List.nodup_nil⟩

instance : Inhabited (Dictionary κ ν) := ⟨empty⟩

instance : EmptyCollection (Dictionary κ ν) := ⟨empty⟩

def keys (d : Dictionary κ ν) : List κ := d.entries.map Prod.fst

def values (d : Dictionary κ ν) : List ν := d.entries.map Prod.snd

def size (d : Dictionary κ ν) : Nat := d.entries.length

def isEmpty (d : Dictionary κ ν) : Bool := d.entries.isEmpty

variable [DecidableEq κ]

def get? (d : Dictionary κ ν) (k : κ) : Option ν := d.entries.lookup k

def contains (d : Dictionary κ ν) (k : κ) : Bool := (d.get? k).isSome

def alterEntries (k : κ) (f : Option ν → ν) : List (κ × ν) → List (κ × ν)
  | [] => [(k, f none)]
  | (l, v) :: rest => if l = k then (l, f (some v)) :: rest else (l, v) :: alterEntries k f rest

theorem map_fst_alterEntries (k : κ) (f : Option ν → ν) (es : List (κ × ν)) :
    (alterEntries k f es).map Prod.fst =
      if k ∈ es.map Prod.fst then es.map Prod.fst else es.map Prod.fst ++ [k] := by
  induction es with
  | nil => simp [alterEntries]
  | cons e es ih =>
    obtain ⟨l, v⟩ := e
    by_cases h : l = k
    · simp [alterEntries, h]
    · have h' : ¬ k = l := fun e => h e.symm
      simp only [alterEntries, h, if_false, List.map_cons, ih, List.mem_cons, h', false_or]
      split <;> simp_all

theorem nodup_alterEntries {k : κ} {f : Option ν → ν} {es : List (κ × ν)}
    (h : (es.map Prod.fst).Nodup) : ((alterEntries k f es).map Prod.fst).Nodup := by
  rw [map_fst_alterEntries]
  split
  · exact h
  · rename_i hk
    rw [List.nodup_append]
    refine ⟨h, by simp, ?_⟩
    intro a ha b hb
    rw [List.mem_singleton] at hb
    intro e
    exact hk (hb ▸ e ▸ ha)

theorem lookup_alterEntries (k l : κ) (f : Option ν → ν) (es : List (κ × ν)) :
    (alterEntries k f es).lookup l =
      if l = k then some (f (es.lookup k)) else es.lookup l := by
  induction es with
  | nil =>
    by_cases h : l = k
    · simp [alterEntries, h]
    · simp [alterEntries, List.lookup_cons, h, beq_eq_false_iff_ne.2 h]
  | cons e es ih =>
    obtain ⟨m, v⟩ := e
    by_cases h : m = k
    · subst h
      by_cases hl : l = m
      · simp [alterEntries, hl]
      · simp [alterEntries, List.lookup_cons, hl, beq_eq_false_iff_ne.2 hl]
    · have hk : ¬ k = m := fun e => h e.symm
      by_cases hl : l = m
      · subst hl
        simp [alterEntries, h]
      · simp [alterEntries, List.lookup_cons, h, beq_eq_false_iff_ne.2 hk,
          beq_eq_false_iff_ne.2 hl, ih]

/-- Replaces the value under a key by what `f` makes of the old one. -/
def alter (d : Dictionary κ ν) (k : κ) (f : Option ν → ν) : Dictionary κ ν :=
  ⟨alterEntries k f d.entries, nodup_alterEntries d.nodup⟩

def insert (d : Dictionary κ ν) (k : κ) (v : ν) : Dictionary κ ν := d.alter k fun _ => v

/-- A value that is already there stays. -/
def insertIfNew (d : Dictionary κ ν) (k : κ) (v : ν) : Dictionary κ ν := d.alter k (·.getD v)

def erase (d : Dictionary κ ν) (k : κ) : Dictionary κ ν :=
  ⟨d.entries.filter fun e => e.1 ≠ k,
    d.nodup.sublist (List.Sublist.map _ List.filter_sublist)⟩

def ofList (es : List (κ × ν)) : Dictionary κ ν := es.foldl (fun d e => d.insert e.1 e.2) empty

@[simp] theorem get?_empty (k : κ) : (empty : Dictionary κ ν).get? k = none := rfl

theorem get?_alter (d : Dictionary κ ν) (k l : κ) (f : Option ν → ν) :
    (d.alter k f).get? l = if l = k then some (f (d.get? k)) else d.get? l :=
  lookup_alterEntries k l f d.entries

theorem get?_insert (d : Dictionary κ ν) (k l : κ) (v : ν) :
    (d.insert k v).get? l = if l = k then some v else d.get? l :=
  get?_alter d k l _

theorem get?_insertIfNew (d : Dictionary κ ν) (k l : κ) (v : ν) :
    (d.insertIfNew k v).get? l = if l = k then some ((d.get? k).getD v) else d.get? l :=
  get?_alter d k l _

theorem lookup_filter_ne (k l : κ) (es : List (κ × ν)) :
    (es.filter fun e => e.1 ≠ k).lookup l = if l = k then none else es.lookup l := by
  induction es with
  | nil => simp
  | cons e es ih =>
    obtain ⟨m, v⟩ := e
    by_cases hm : m = k
    · rw [List.filter_cons_of_neg (by simp [hm]), ih]
      by_cases hl : l = k
      · simp [hl]
      · simp [hl, List.lookup_cons, beq_eq_false_iff_ne.2 (hm ▸ hl)]
    · rw [List.filter_cons_of_pos (by simp [hm]), List.lookup_cons, ih, List.lookup_cons]
      by_cases hl : l = m
      · simp [hl, hm]
      · simp [beq_eq_false_iff_ne.2 hl]

theorem get?_erase (d : Dictionary κ ν) (k l : κ) :
    (d.erase k).get? l = if l = k then none else d.get? l :=
  lookup_filter_ne k l d.entries

theorem keys_alter (d : Dictionary κ ν) (k : κ) (f : Option ν → ν) :
    (d.alter k f).keys = if k ∈ d.keys then d.keys else d.keys ++ [k] :=
  map_fst_alterEntries k f d.entries

theorem mem_keys_iff {d : Dictionary κ ν} {k : κ} : k ∈ d.keys ↔ (d.get? k).isSome = true := by
  rw [keys, get?]
  induction d.entries with
  | nil => simp
  | cons e es ih =>
    obtain ⟨l, v⟩ := e
    by_cases h : k = l
    · simp [h]
    · simp [List.lookup_cons, h, beq_eq_false_iff_ne.2 h, ih]

theorem get?_of_mem {d : Dictionary κ ν} {k : κ} {v : ν} (h : (k, v) ∈ d.entries) :
    d.get? k = some v := by
  obtain ⟨es, hnodup⟩ := d
  change es.lookup k = some v
  induction es with
  | nil => simp at h
  | cons e es ih =>
    obtain ⟨l, u⟩ := e
    obtain ⟨hfirst, hrest⟩ := List.nodup_cons.mp hnodup
    rcases List.mem_cons.mp h with he | h
    · simp [← he]
    · have hkey : k ∈ es.map Prod.fst := List.mem_map_of_mem h
      have hne : ¬ k = l := fun he => hfirst (he ▸ hkey)
      simpa [List.lookup_cons, beq_eq_false_iff_ne.2 hne] using ih hrest h

theorem mem_of_get? {d : Dictionary κ ν} {k : κ} {v : ν} (h : d.get? k = some v) :
    (k, v) ∈ d.entries := by
  have hkey : k ∈ d.keys := mem_keys_iff.mpr (by simp [h])
  obtain ⟨e, he, rfl⟩ := List.mem_map.mp hkey
  obtain rfl : e.2 = v := Option.some.inj ((get?_of_mem he).symm.trans h)
  exact he

omit [DecidableEq κ] in
theorem size_eq (d : Dictionary κ ν) : d.size = d.keys.length := by simp [size, keys]

theorem size_alter_ne_zero (d : Dictionary κ ν) (k : κ) (f : Option ν → ν) :
    (d.alter k f).size ≠ 0 := by
  have hkey : k ∈ (d.alter k f).keys := mem_keys_iff.mpr (by simp [get?_alter])
  rw [size_eq]
  exact Nat.ne_of_gt (List.length_pos_of_mem hkey)

end Dictionary

end Regroup
