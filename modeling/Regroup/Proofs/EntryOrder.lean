import Mathlib.Data.List.Nodup
import Mathlib.Data.List.Perm.Basic
import Regroup.Proofs.JsonText
import Regroup.Proofs.Layering

/-! The order in which the entries of a mapping are written. A document enters no key of a mapping twice,
and if the keys are strings, then no two entries compete for one field: they may be written in any
order, at any depth, and make the same object. -/

namespace Regroup.Yaml.Value

/-- Keys of mappings are strings, and numbers are integers. -/
inductive Plain : Value → Prop where
  | null : Plain .null
  | bool (b : Bool) : Plain (.bool b)
  | int (n : Int) : Plain (.number (.int n))
  | str (s : String) : Plain (.str s)
  | seq {items : List Value} (parts : ∀ v ∈ items, Plain v) : Plain (.seq items)
  | map {entries : List (Value × Value)} (keys : ∀ e ∈ entries, ∃ name, e.1 = .str name)
      (parts : ∀ e ∈ entries, Plain e.2) : Plain (.map entries)
  | tagged (tag : String) {v : Value} (inner : Plain v) : Plain (.tagged tag v)

/-- No mapping has a key twice. -/
inductive DistinctKeys : Value → Prop where
  | null : DistinctKeys .null
  | bool (b : Bool) : DistinctKeys (.bool b)
  | number (n : Number) : DistinctKeys (.number n)
  | str (s : String) : DistinctKeys (.str s)
  | seq {items : List Value} (parts : ∀ v ∈ items, DistinctKeys v) : DistinctKeys (.seq items)
  | map {entries : List (Value × Value)} (keys : hasEqualKeys entries = false)
      (names : ∀ e ∈ entries, DistinctKeys e.1) (parts : ∀ e ∈ entries, DistinctKeys e.2) :
    DistinctKeys (.map entries)
  | tagged (tag : String) {v : Value} (inner : DistinctKeys v) : DistinctKeys (.tagged tag v)

/-- Mappings have the same entries in another order, at any depth. -/
inductive Reordered : Value → Value → Prop where
  | refl (v : Value) : Reordered v v
  | trans {u v w : Value} (h : Reordered u v) (h' : Reordered v w) : Reordered u w
  | entries {es fs : List (Value × Value)} (h : es.Perm fs) : Reordered (.map es) (.map fs)
  | entry (before after : List (Value × Value)) (key : Value) {v w : Value} (h : Reordered v w) :
    Reordered (.map (before ++ (key, v) :: after)) (.map (before ++ (key, w) :: after))
  | item (before after : List Value) {v w : Value} (h : Reordered v w) :
    Reordered (.seq (before ++ v :: after)) (.seq (before ++ w :: after))
  | tagged (tag : String) {v w : Value} (h : Reordered v w) :
    Reordered (.tagged tag v) (.tagged tag w)

/-! Reading entries as fields. -/

/-- What it is for an entry to become a field. -/
def Becomes (e : Value × Value) (f : String × Json) : Prop :=
  e.1.fieldName? = some f.1 ∧ e.2.toJson? = some f.2

theorem entriesToJson?_eq_some_iff {entries : List (Value × Value)} {fields : List (String × Json)} :
    entriesToJson? entries = some fields ↔ List.Forall₂ Becomes entries fields := by
  induction entries generalizing fields with
  | nil => simp [entriesToJson?, eq_comm]
  | cons e rest ih =>
    obtain ⟨k, v⟩ := e
    simp only [entriesToJson?, Option.bind_eq_bind, Option.bind_eq_some_iff, Option.pure_def,
      Option.some.injEq, List.forall₂_cons_left_iff]
    constructor
    · rintro ⟨name, hname, j, hj, js, hjs, rfl⟩
      exact ⟨(name, j), js, ⟨hname, hj⟩, ih.mp hjs, rfl⟩
    · rintro ⟨⟨name, j⟩, js, ⟨hname, hj⟩, hjs, rfl⟩
      exact ⟨name, hname, j, hj, js, ih.mpr hjs, rfl⟩

theorem itemsToJson?_eq_some_iff {items : List Value} {js : List Json} :
    itemsToJson? items = some js ↔ List.Forall₂ (fun v j => v.toJson? = some j) items js := by
  induction items generalizing js with
  | nil => simp [itemsToJson?, eq_comm]
  | cons v rest ih =>
    simp only [itemsToJson?, Option.bind_eq_bind, Option.bind_eq_some_iff, Option.pure_def,
      Option.some.injEq, List.forall₂_cons_left_iff]
    constructor
    · rintro ⟨j, hj, js, hjs, rfl⟩
      exact ⟨j, js, hj, ih.mp hjs, rfl⟩
    · rintro ⟨j, js, hj, hjs, rfl⟩
      exact ⟨j, hj, js, ih.mpr hjs, rfl⟩

theorem itemsToJson?_replace {v w : Value} (h : v.toJson? = w.toJson?) (before after : List Value) :
    itemsToJson? (before ++ v :: after) = itemsToJson? (before ++ w :: after) := by
  induction before with
  | nil => simp [itemsToJson?, h]
  | cons u before ih => simp [itemsToJson?, ih]

theorem entriesToJson?_replace {v w : Value} (h : v.toJson? = w.toJson?) (key : Value)
    (before after : List (Value × Value)) :
    entriesToJson? (before ++ (key, v) :: after) = entriesToJson? (before ++ (key, w) :: after) := by
  induction before with
  | nil => simp [entriesToJson?, h]
  | cons e before ih => simp [entriesToJson?, ih]

/-- The names of the fields are the keys. -/
theorem keys_eq_of_becomes {entries : List (Value × Value)} {fields : List (String × Json)}
    (hkeys : ∀ e ∈ entries, ∃ name, e.1 = .str name) (h : List.Forall₂ Becomes entries fields) :
    entries.map Prod.fst = (fields.map Prod.fst).map .str := by
  induction h with
  | nil => rfl
  | cons hef hrest ih =>
    obtain ⟨⟨name, hname⟩, hmore⟩ := List.forall_mem_cons.mp hkeys
    have hfield := hef.1
    rw [hname] at hfield
    obtain rfl := Option.some.inj hfield
    rw [List.map_cons, List.map_cons, List.map_cons, hname, ih hmore]

end Regroup.Yaml.Value

namespace Regroup.Json

/-- Fields of different names may be entered in any order. -/
theorem ofFields_perm {fields others : List (String × Json)} (h : fields.Perm others)
    (hnames : (fields.map Prod.fst).Nodup) (hparts : ∀ f ∈ fields, f.2.Ordered) :
    ofFields fields = ofFields others := by
  have hothers : ∀ f ∈ others, f.2.Ordered := fun f hf => hparts f (h.mem_iff.mpr hf)
  have hlookup : ∀ {xs : List (String × Json)} {name v}, (xs.map Prod.fst).Nodup →
      (xs.reverse.lookup name = some v ↔ (name, v) ∈ xs) := by
    intro xs name v hxs
    rw [lookup_eq_some_iff_mem (by simpa using hxs), List.mem_reverse]
  refine (ordered_ofFields hparts).ext (ordered_ofFields hothers) rfl rfl fun name => ?_
  rw [field?_ofFields, field?_ofFields]
  ext v
  rw [hlookup hnames, hlookup ((h.map Prod.fst).nodup_iff.mp hnames), h.mem_iff]

theorem inherited_floatFree : Inherited FloatFree where
  null := .null
  empty := .obj (List.forall_mem_nil _)
  part h hf := by
    cases h with
    | obj parts => exact parts _ hf
  insert name v h hv := by
    cases h with
    | obj parts =>
      refine .obj fun f hf => ?_
      rcases mem_insertField hf with rfl | hf
      · exact hv
      · exact parts f hf

end Regroup.Json

namespace Regroup.Yaml.Value

theorem exists_forall₂ {α β : Type} {R : α → β → Prop} {P : β → Prop} {as : List α}
    (h : ∀ a ∈ as, ∃ b, R a b ∧ P b) : ∃ bs, List.Forall₂ R as bs ∧ ∀ b ∈ bs, P b := by
  induction as with
  | nil => exact ⟨[], .nil, List.forall_mem_nil _⟩
  | cons a as ih =>
    obtain ⟨⟨b, hab, hb⟩, hrest⟩ := List.forall_mem_cons.mp h
    obtain ⟨bs, hbs, hparts⟩ := ih hrest
    exact ⟨b :: bs, .cons hab hbs, List.forall_mem_cons.mpr ⟨hb, hparts⟩⟩

/-- Such values can be written as JSON, without floating-point numbers. -/
theorem Plain.exists_toJson? {v : Value} (h : v.Plain) : ∃ j, v.toJson? = some j ∧ j.FloatFree := by
  induction h with
  | null => exact ⟨_, rfl, .null⟩
  | bool b => exact ⟨_, rfl, .bool b⟩
  | int n => exact ⟨_, rfl, .int n⟩
  | str s => exact ⟨_, rfl, .str s⟩
  | seq parts ih =>
    obtain ⟨js, hjs, hfree⟩ := exists_forall₂ ih
    exact ⟨.arr js, by rw [toJson?, itemsToJson?_eq_some_iff.mpr hjs]; rfl, .arr hfree⟩
  | @map entries keys parts ih =>
    have hfield : ∀ e ∈ entries, ∃ f, Becomes e f ∧ f.2.FloatFree := by
      intro e he
      obtain ⟨name, hname⟩ := keys e he
      obtain ⟨j, hj, hfree⟩ := ih e he
      exact ⟨(name, j), ⟨by rw [hname, fieldName?], hj⟩, hfree⟩
    obtain ⟨fields, hfields, hfree⟩ := exists_forall₂ hfield
    exact ⟨Json.ofFields fields, by rw [toJson?, entriesToJson?_eq_some_iff.mpr hfields]; rfl,
      Json.inherited_floatFree.ofFields hfree⟩
  | tagged tag inner ih =>
    obtain ⟨j, hj, hfree⟩ := ih
    exact ⟨.obj [("!" ++ tag, j)], by rw [toJson?, hj]; rfl,
      .obj (List.forall_mem_cons.mpr ⟨hfree, List.forall_mem_nil _⟩)⟩

/-! Mappings whose keys are strings that differ. -/

theorem equals_str (s t : String) : Value.equals (.str s) (.str t) = (s == t) := by
  rw [equals]

theorem hasEqualKeys_eq_false_iff {entries : List (Value × Value)}
    (hkeys : ∀ e ∈ entries, ∃ name, e.1 = .str name) :
    hasEqualKeys entries = false ↔ (entries.map Prod.fst).Nodup := by
  induction entries with
  | nil => simp [hasEqualKeys]
  | cons e rest ih =>
    obtain ⟨k, v⟩ := e
    obtain ⟨⟨name, hname⟩, hrest⟩ := List.forall_mem_cons.mp hkeys
    obtain rfl : k = .str name := hname
    have hother : (∀ e ∈ rest, Value.equals (.str name) e.1 = false) ↔
        Value.str name ∉ rest.map Prod.fst := by
      rw [List.mem_map]
      constructor
      · rintro h ⟨e, he, hsame⟩
        have hdiffer := h e he
        simp [hsame, equals_str] at hdiffer
      · intro h e he
        obtain ⟨other, hother⟩ := hrest e he
        rw [hother, equals_str, beq_eq_false_iff_ne]
        rintro rfl
        exact h ⟨e, he, hother⟩
    rw [List.map_cons, List.nodup_cons, ← ih hrest, ← hother]
    simp [hasEqualKeys]

/-- Keys are strings that differ, and numbers are integers. -/
structure Regular (v : Value) : Prop where
  plain : v.Plain
  distinctKeys : v.DistinctKeys

theorem regular_seq {items : List Value} :
    Regular (.seq items) ↔ ∀ v ∈ items, v.Regular := by
  constructor
  · rintro ⟨hplain, hdistinct⟩ v hv
    cases hplain with
    | seq plain =>
      cases hdistinct with
      | seq distinct => exact ⟨plain v hv, distinct v hv⟩
  · exact fun h => ⟨.seq fun v hv => (h v hv).plain, .seq fun v hv => (h v hv).distinctKeys⟩

theorem regular_map {entries : List (Value × Value)} :
    Regular (.map entries) ↔ (∀ e ∈ entries, ∃ name, e.1 = .str name) ∧
      (entries.map Prod.fst).Nodup ∧ ∀ e ∈ entries, e.2.Regular := by
  constructor
  · rintro ⟨hplain, hdistinct⟩
    cases hplain with
    | map keys plain =>
      cases hdistinct with
      | map differ _ distinct =>
        exact ⟨keys, (hasEqualKeys_eq_false_iff keys).mp differ,
          fun e he => ⟨plain e he, distinct e he⟩⟩
  · rintro ⟨keys, hnodup, parts⟩
    refine ⟨.map keys fun e he => (parts e he).plain,
      .map ((hasEqualKeys_eq_false_iff keys).mpr hnodup) (fun e he => ?_)
        fun e he => (parts e he).distinctKeys⟩
    obtain ⟨name, hname⟩ := keys e he
    exact hname ▸ .str name

theorem regular_tagged {tag : String} {v : Value} : Regular (.tagged tag v) ↔ v.Regular := by
  constructor
  · rintro ⟨hplain, hdistinct⟩
    cases hplain with
    | tagged _ plain =>
      cases hdistinct with
      | tagged _ distinct => exact ⟨plain, distinct⟩
  · exact fun h => ⟨.tagged tag h.plain, .tagged tag h.distinctKeys⟩

theorem toJson?_map_perm {entries others : List (Value × Value)} (h : Regular (.map entries))
    (hperm : entries.Perm others) :
    (Value.map others).toJson? = (Value.map entries).toJson? := by
  obtain ⟨hkeys, hnodup, -⟩ := regular_map.mp h
  obtain ⟨j, hj, -⟩ := h.plain.exists_toJson?
  rw [toJson?, Option.map_eq_some_iff] at hj
  obtain ⟨fields, hfields, -⟩ := hj
  have hread := entriesToJson?_eq_some_iff.mp hfields
  obtain ⟨fields', hread', hmoved⟩ := List.perm_comp_forall₂ hperm.symm hread
  have hfields' := entriesToJson?_eq_some_iff.mpr hread'
  have hnames : (fields.map Prod.fst).Nodup := .of_map _ (keys_eq_of_becomes hkeys hread ▸ hnodup)
  have hsame := Json.ofFields_perm hmoved.symm hnames (ordered_of_entriesToJson? hfields)
  rw [toJson?, toJson?, hfields, hfields', Option.map_some, Option.map_some, hsame]

/-- What is said of a value however the entries of its mappings are ordered. -/
structure SameContent (v w : Value) : Prop where
  regular : w.Regular
  isNull : w.isNull = v.isNull
  toJson? : w.toJson? = v.toJson?

theorem Reordered.sameContent {v w : Value} (h : Reordered v w) (hv : v.Regular) :
    SameContent v w := by
  induction h with
  | refl v => exact ⟨hv, rfl, rfl⟩
  | trans h h' ih ih' =>
    obtain ⟨hregular, hnull, hjson⟩ := ih hv
    obtain ⟨hregular', hnull', hjson'⟩ := ih' hregular
    exact ⟨hregular', hnull'.trans hnull, hjson'.trans hjson⟩
  | entries hperm =>
    obtain ⟨hkeys, hnodup, hparts⟩ := regular_map.mp hv
    have hregular := regular_map.mpr ⟨fun e he => hkeys e (hperm.mem_iff.mpr he),
      (hperm.map Prod.fst).nodup_iff.mp hnodup, fun e he => hparts e (hperm.mem_iff.mpr he)⟩
    exact ⟨hregular, rfl, toJson?_map_perm hv hperm⟩
  | entry before after key h ih =>
    rw [regular_map] at hv
    simp only [List.forall_mem_append, List.forall_mem_cons] at hv
    obtain ⟨hkeys, hnodup, hbefore, hpart, hafter⟩ := hv
    obtain ⟨hregular, -, hjson⟩ := ih hpart
    refine ⟨?_, rfl, by rw [toJson?, toJson?, entriesToJson?_replace hjson]⟩
    rw [regular_map]
    simp only [List.forall_mem_append, List.forall_mem_cons]
    exact ⟨hkeys, by simpa using hnodup, hbefore, hregular, hafter⟩
  | item before after h ih =>
    rw [regular_seq] at hv
    simp only [List.forall_mem_append, List.forall_mem_cons] at hv
    obtain ⟨hbefore, hpart, hafter⟩ := hv
    obtain ⟨hregular, -, hjson⟩ := ih hpart
    refine ⟨?_, rfl, by rw [toJson?, toJson?, itemsToJson?_replace hjson]⟩
    rw [regular_seq]
    simp only [List.forall_mem_append, List.forall_mem_cons]
    exact ⟨hbefore, hregular, hafter⟩
  | tagged tag h ih =>
    obtain ⟨hregular, hnull, hjson⟩ := ih (regular_tagged.mp hv)
    exact ⟨regular_tagged.mpr hregular, by rwa [isNull, isNull], by rw [toJson?, toJson?, hjson]⟩

end Regroup.Yaml.Value

namespace Regroup.Yaml

/-! What is read from a document. -/

/-- Whatever the computation returns satisfies `P`. -/
def Yields {σ α : Type} (x : StateT σ Option α) (P : α → Prop) : Prop :=
  ∀ s a s', x.run s = some (a, s') → P a

namespace Yields

variable {σ α β : Type} {P : α → Prop} {Q : β → Prop}

theorem pure {a : α} (h : P a) : Yields (Pure.pure a : StateT σ Option α) P := by
  intro s b s' hrun
  obtain ⟨rfl, rfl⟩ : a = b ∧ s = s' := by simpa using hrun
  exact h

theorem failure : Yields (failure : StateT σ Option α) P := by
  intro s a s' hrun
  cases hrun

theorem lift {x : Option α} (h : ∀ a, x = some a → P a) :
    Yields (StateT.lift x : StateT σ Option α) P := by
  intro s a s' hrun
  obtain ⟨b, hb, hpair⟩ := Option.bind_eq_some_iff.mp hrun
  obtain ⟨rfl, rfl⟩ : b = a ∧ s = s' := by simpa using hpair
  exact h b hb

theorem bind {x : StateT σ Option α} {f : α → StateT σ Option β} (hx : Yields x P)
    (hf : ∀ a, P a → Yields (f a) Q) : Yields (x >>= f) Q := by
  intro s b s' hrun
  obtain ⟨⟨a, t⟩, ha, hb⟩ := Option.bind_eq_some_iff.mp hrun
  exact hf a (hx s a t ha) t b s' hb

theorem mapM {items : List α} {f : α → StateT σ Option β} (hf : ∀ a, Yields (f a) Q) :
    Yields (items.mapM f) fun bs => ∀ b ∈ bs, Q b := by
  induction items with
  | nil => exact .pure (List.forall_mem_nil _)
  | cons a rest ih =>
    rw [List.mapM_cons]
    exact (hf a).bind fun b hb => ih.bind fun bs hbs => .pure (List.forall_mem_cons.mpr ⟨hb, hbs⟩)

end Yields

namespace Node

theorem value_zero (targets : List (Nat × Node)) (n : Node) : n.value targets 0 = (do
    match ← target targets n with
    | .scalar p text style => StateT.lift (Value.ofScalar? p.meaning text style)
    | _ => failure) := by
  delta value
  refine bind_congr fun m => ?_
  cases m <;> rfl

theorem value_succ (targets : List (Nat × Node)) (depth : Nat) (n : Node) :
    n.value targets (depth + 1) = (do
      match ← target targets n with
      | .scalar p text style => StateT.lift (Value.ofScalar? p.meaning text style)
      | .sequence p items =>
        let vs ← items.mapM (value targets depth)
        return Value.ofCollection p.meaning (.seq vs)
      | .mapping p entries =>
        let vs ← entries.mapM fun e => do
          return (← value targets depth e.1, ← value targets depth e.2)
        if Value.hasEqualKeys vs then
          failure
        return Value.ofCollection p.meaning (.map vs)
      | .alias _ => failure) := by
  delta value
  refine bind_congr fun m => ?_
  cases m <;> rfl

end Node

namespace Value

theorem distinctKeys_ofPlain? {text : List Char} {v : Value} (h : ofPlain? text = some v) :
    v.DistinctKeys := by
  simp only [ofPlain?] at h
  repeat' split at h
  all_goals cases h <;> constructor

theorem distinctKeys_ofCollection (m : TagMeaning) {v : Value} (h : v.DistinctKeys) :
    (ofCollection m v).DistinctKeys := by
  cases m with
  | locally name => exact .tagged name h
  | _ => exact h

theorem distinctKeys_ofScalar? {m : TagMeaning} {text : List Char} {style : Style} {v : Value}
    (h : ofScalar? m text style = some v) : v.DistinctKeys := by
  have huntagged : ∀ {w}, (if style = .plain then ofPlain? text else some (.str (String.ofList text))) =
      some w → w.DistinctKeys := by
    intro w hw
    split at hw
    · exact distinctKeys_ofPlain? hw
    · cases hw
      exact .str _
  cases m with
  | unreadable => exact huntagged h
  | locally name =>
    obtain ⟨w, hw, rfl⟩ := Option.map_eq_some_iff.mp h
    exact .tagged name (huntagged hw)
  | float =>
    obtain ⟨n, -, rfl⟩ := Option.map_eq_some_iff.mp h
    exact .number n
  | _ =>
    simp only [ofScalar?] at h
    repeat' split at h
    all_goals cases h <;> constructor

theorem distinctKeys_value (targets : List (Nat × Node)) (depth : Nat) (n : Node) :
    Yields (n.value targets depth) DistinctKeys := by
  have htarget : ∀ n, Yields (Node.target targets n) fun _ => True := fun _ _ _ _ _ => trivial
  induction depth generalizing n with
  | zero =>
    rw [Node.value_zero]
    refine (htarget n).bind fun m _ => ?_
    cases m with
    | scalar p text style => exact .lift fun v hv => distinctKeys_ofScalar? hv
    | _ => exact .failure
  | succ depth ih =>
    rw [Node.value_succ]
    refine (htarget n).bind fun m _ => ?_
    cases m with
    | scalar p text style => exact .lift fun v hv => distinctKeys_ofScalar? hv
    | sequence p items =>
      exact (Yields.mapM ih).bind fun vs hvs => .pure (distinctKeys_ofCollection _ (.seq hvs))
    | mapping p entries =>
      have hentry : ∀ e : Node × Node, Yields (do
          return (← Node.value targets depth e.1, ← Node.value targets depth e.2))
          fun e => e.1.DistinctKeys ∧ e.2.DistinctKeys :=
        fun e => (ih e.1).bind fun k hk => (ih e.2).bind fun v hv => .pure ⟨hk, hv⟩
      refine (Yields.mapM hentry).bind fun vs hvs => ?_
      split_ifs with hkeys
      · exact (Yields.failure (P := fun _ => False)).bind fun _ h => h.elim
      · refine .pure (distinctKeys_ofCollection _ (.map (by simpa using hkeys) ?_ ?_))
        · exact fun e he => (hvs e he).1
        · exact fun e he => (hvs e he).2
    | _ => exact .failure

theorem distinctKeys_ofText? {s : String} {v : Value} (h : ofText? s = some v) :
    v.DistinctKeys := by
  obtain ⟨ts, -, h⟩ := Option.bind_eq_some_iff.mp h
  obtain ⟨n, -, h⟩ := Option.bind_eq_some_iff.mp h
  obtain ⟨⟨w, left⟩, hrun, rfl⟩ := Option.map_eq_some_iff.mp h
  exact distinctKeys_value _ _ n _ w left hrun

end Value

end Regroup.Yaml
