import Mathlib.Tactic.SplitIfs
import Regroup.Json.Text
import Regroup.Proofs.DigestText

/-! The compact text of a value without floating-point numbers tells the value. Whatever follows a text,
its first character tells what kind of value it writes, and the text tells where it ends. -/

namespace Regroup.Json

/-- A text is read up to where its kind of characters ends. -/
theorem span_inj {α : Type} {p : α → Prop} {a b xs ys : List α} (ha : ∀ c ∈ a, p c)
    (hb : ∀ c ∈ b, p c) (hx : ∀ c ∈ xs.head?, ¬ p c) (hy : ∀ c ∈ ys.head?, ¬ p c)
    (h : a ++ xs = b ++ ys) : a = b ∧ xs = ys := by
  induction a generalizing b with
  | nil =>
    cases b with
    | nil => exact ⟨rfl, h⟩
    | cons d b =>
      obtain rfl : xs = d :: (b ++ ys) := h
      exact absurd (hb d List.mem_cons_self) (hx d rfl)
  | cons c a ih =>
    cases b with
    | nil =>
      obtain rfl : c :: (a ++ xs) = ys := h
      exact absurd (ha c List.mem_cons_self) (hy c rfl)
    | cons d b =>
      obtain ⟨rfl, hrest⟩ := List.cons.inj h
      obtain ⟨rfl, hxy⟩ := ih (fun e he => ha e (List.mem_cons_of_mem _ he))
        (fun e he => hb e (List.mem_cons_of_mem _ he)) hrest
      exact ⟨rfl, hxy⟩

/-! Numbers. -/

/-- What a number may be followed by. -/
def NoDigit (cs : List Char) : Prop := ∀ c ∈ cs.head?, ¬ c.isDigit

theorem toDigits_inj {m n : Nat} (h : Nat.toDigits 10 m = Nat.toDigits 10 n) : m = n := by
  calc
    m = Nat.ofDigitChars 10 (Nat.toDigits 10 m) 0 := Nat.ofDigitChars_ten_toDigits.symm
    _ = Nat.ofDigitChars 10 (Nat.toDigits 10 n) 0 := by rw [h]
    _ = n := Nat.ofDigitChars_ten_toDigits

theorem toDigits_append_inj {m n : Nat} {xs ys : List Char} (hx : NoDigit xs) (hy : NoDigit ys)
    (h : Nat.toDigits 10 m ++ xs = Nat.toDigits 10 n ++ ys) : m = n ∧ xs = ys := by
  have hdigit : ∀ k, ∀ c ∈ Nat.toDigits 10 k, c.isDigit :=
    fun k c hc => Nat.isDigit_of_mem_toDigits (by decide) (by decide) hc
  obtain ⟨hdigits, hrest⟩ := span_inj (hdigit m) (hdigit n) hx hy h
  exact ⟨toDigits_inj hdigits, hrest⟩

theorem toList_int (n : Int) : (toString n).toList =
    if 0 ≤ n then Nat.toDigits 10 n.toNat else '-' :: Nat.toDigits 10 (-n).toNat := by
  rw [Int.toString_eq_repr, Int.repr_eq_if]
  split
  · exact Nat.toList_repr
  · rw [String.toList_append, Nat.toList_repr]
    rfl

theorem head_toDigits {n : Nat} {c : Char} {xs ys : List Char}
    (h : c :: xs = Nat.toDigits 10 n ++ ys) : c.isDigit := by
  cases hdigits : Nat.toDigits 10 n with
  | nil => exact absurd hdigits Nat.toDigits_ne_nil
  | cons d ds =>
    obtain ⟨rfl, -⟩ := List.cons.inj (hdigits ▸ h)
    exact Nat.isDigit_of_mem_toDigits (b := 10) (n := n) (by decide) (by decide) (by simp [hdigits])

theorem exists_int_eq_cons (n : Int) :
    ∃ c cs, (toString n).toList = c :: cs ∧ (c = '-' ∨ c.isDigit) := by
  rw [toList_int]
  split_ifs
  · obtain ⟨d, ds, hdigits⟩ := List.exists_cons_of_ne_nil (Nat.toDigits_ne_nil (n := n.toNat) (b := 10))
    have hhead : d :: ds = Nat.toDigits 10 n.toNat ++ [] := by rw [hdigits, List.append_nil]
    exact ⟨d, ds, hdigits, .inr (head_toDigits hhead)⟩
  · exact ⟨'-', _, rfl, .inl rfl⟩

theorem int_append_inj {m n : Int} {xs ys : List Char} (hx : NoDigit xs) (hy : NoDigit ys)
    (h : (toString m).toList ++ xs = (toString n).toList ++ ys) : m = n ∧ xs = ys := by
  have hminus : ¬ '-'.isDigit := by decide
  rw [toList_int, toList_int] at h
  split_ifs at h
  · obtain ⟨hnat, hrest⟩ := toDigits_append_inj hx hy h
    exact ⟨by omega, hrest⟩
  · exact absurd (head_toDigits h.symm) hminus
  · exact absurd (head_toDigits h) hminus
  · obtain ⟨hnat, hrest⟩ := toDigits_append_inj hx hy (List.cons.inj h).2
    exact ⟨by omega, hrest⟩

/-! Strings. -/

/-- Reads one character that may be escaped. -/
def unescape? : List Char → Option (Char × List Char)
  | '\\' :: 'u' :: cs =>
    (Yaml.Number.digits? 16 (cs.take 4)).map fun n => (Char.ofNat n, cs.drop 4)
  | '\\' :: c :: cs =>
    let marks : List (Char × Char) := [('"', '"'), ('\\', '\\'), ('n', '\n'), ('r', '\r'), ('t', '\t'),
      ('b', '\x08'), ('f', '\x0c')]
    (marks.lookup c).map fun d => (d, cs)
  | c :: cs => some (c, cs)
  | [] => none

theorem unescape?_escape (c : Char) (cs : List Char) : unescape? (escape c ++ cs) = some (c, cs) := by
  unfold escape
  split_ifs with h₁ h₂ h₃ h₄ h₅ h₆ h₇ hcontrol
  · subst h₁; rfl
  · subst h₂; rfl
  · subst h₃; rfl
  · subst h₄; rfl
  · subst h₅; rfl
  · subst h₆; rfl
  · subst h₇; rfl
  · have hlength : (hex 4 c.toNat).length = 4 :=
      Digest.length_hexDigits (by decide) (Nat.lt_trans hcontrol (by decide))
    have hread : Yaml.Number.digits? 16 (hex 4 c.toNat) = some c.toNat :=
      Digest.digits?_hexDigits 4 c.toNat
    simp [unescape?, List.take_left' hlength, List.drop_left' hlength, hread]
  · simp [unescape?, h₂]

theorem escape_append_inj {c d : Char} {xs ys : List Char} (h : escape c ++ xs = escape d ++ ys) :
    c = d ∧ xs = ys := by
  have hread := unescape?_escape c xs
  rw [h, unescape?_escape] at hread
  obtain ⟨rfl, rfl⟩ := Prod.mk.inj (Option.some.inj hread)
  exact ⟨rfl, rfl⟩

/-- No escaped character looks like the end of a string. -/
theorem head_escape {c : Char} {xs ys : List Char} : '"' :: xs ≠ escape c ++ ys := by
  unfold escape
  split_ifs with hquote <;> simp
  exact fun hc => absurd hc.symm hquote

theorem quoteChars_append_inj {s t xs ys : List Char} (h : quoteChars s ++ xs = quoteChars t ++ ys) :
    s = t ∧ xs = ys := by
  have hbody : s.flatMap escape ++ '"' :: xs = t.flatMap escape ++ '"' :: ys := by
    simpa [quoteChars] using h
  clear h
  induction s generalizing t with
  | nil =>
    cases t with
    | nil => exact ⟨rfl, (List.cons.inj hbody).2⟩
    | cons d t =>
      rw [List.flatMap_cons, List.append_assoc] at hbody
      exact absurd hbody head_escape
  | cons c s ih =>
    cases t with
    | nil =>
      rw [List.flatMap_cons, List.append_assoc] at hbody
      exact absurd hbody.symm head_escape
    | cons d t =>
      rw [List.flatMap_cons, List.flatMap_cons, List.append_assoc, List.append_assoc] at hbody
      obtain ⟨rfl, hrest⟩ := escape_append_inj hbody
      obtain ⟨rfl, hxy⟩ := ih hrest
      exact ⟨rfl, hxy⟩

/-! Values. -/

/-- All numbers are integers. -/
inductive FloatFree : Json → Prop where
  | null : FloatFree .null
  | bool (b : Bool) : FloatFree (.bool b)
  | int (n : Int) : FloatFree (.int n)
  | str (s : String) : FloatFree (.str s)
  | arr {items : List Json} (parts : ∀ v ∈ items, FloatFree v) : FloatFree (.arr items)
  | obj {fields : List (String × Json)} (parts : ∀ f ∈ fields, FloatFree f.2) :
    FloatFree (.obj fields)

@[simp] theorem chars_null : Json.null.chars = ['n', 'u', 'l', 'l'] := rfl

@[simp] theorem chars_true : (Json.bool true).chars = ['t', 'r', 'u', 'e'] := rfl

@[simp] theorem chars_false : (Json.bool false).chars = ['f', 'a', 'l', 's', 'e'] := rfl

@[simp] theorem chars_int (n : Int) : (Json.int n).chars = (toString n).toList := by
  rw [chars]

@[simp] theorem chars_str (s : String) : (Json.str s).chars = quoteChars s.toList := by
  rw [chars]

@[simp] theorem chars_arr (items : List Json) :
    (Json.arr items).chars = '[' :: (itemChars true items ++ [']']) := by
  rw [chars]

@[simp] theorem chars_obj (fields : List (String × Json)) :
    (Json.obj fields).chars = '\x7b' :: (fieldChars true fields ++ ['\x7d']) := by
  rw [chars]

inductive Kind where
  | null
  | bool
  | number
  | string
  | array
  | object
  deriving DecidableEq

def kind : Json → Kind
  | .null => .null
  | .bool _ => .bool
  | .int _ => .number
  | .float _ => .number
  | .str _ => .string
  | .arr _ => .array
  | .obj _ => .object

/-- The kind of the values whose texts begin with a character. -/
def Kind.ofFirst? (c : Char) : Option Kind :=
  if c = '-' ∨ c.isDigit then some .number
  else if c = 'n' then some .null
  else if c = 't' ∨ c = 'f' then some .bool
  else if c = '"' then some .string
  else if c = '[' then some .array
  else if c = '\x7b' then some .object
  else none

theorem FloatFree.exists_first {v : Json} (hv : v.FloatFree) :
    ∃ c cs, v.chars = c :: cs ∧ Kind.ofFirst? c = some v.kind := by
  cases hv with
  | null => exact ⟨_, _, chars_null, rfl⟩
  | bool b =>
    cases b with
    | true => exact ⟨_, _, chars_true, rfl⟩
    | false => exact ⟨_, _, chars_false, rfl⟩
  | int n =>
    obtain ⟨c, cs, hchars, hfirst⟩ := exists_int_eq_cons n
    exact ⟨c, cs, by rw [chars_int, hchars], by rw [Kind.ofFirst?, if_pos hfirst]; rfl⟩
  | str s => exact ⟨_, _, chars_str s, rfl⟩
  | @arr items _ => exact ⟨_, _, chars_arr items, rfl⟩
  | @obj fields _ => exact ⟨_, _, chars_obj fields, rfl⟩

theorem FloatFree.kind_eq {v w : Json} (hv : v.FloatFree) (hw : w.FloatFree) {xs ys : List Char}
    (h : v.chars ++ xs = w.chars ++ ys) : v.kind = w.kind := by
  obtain ⟨c, cs, hc, hkind⟩ := hv.exists_first
  obtain ⟨d, ds, hd, hkind'⟩ := hw.exists_first
  rw [hc, hd] at h
  obtain rfl := (List.cons.inj h).1
  exact Option.some.inj (hkind.symm.trans hkind')

theorem FloatFree.bracket_ne {w : Json} (hw : w.FloatFree) {xs ys : List Char} :
    ']' :: xs ≠ w.chars ++ ys := by
  intro h
  obtain ⟨c, cs, hc, hkind⟩ := hw.exists_first
  rw [hc] at h
  obtain rfl := (List.cons.inj h).1
  cases hkind

/-- The text of the value tells the value and where it ends, whatever follows it. -/
def Told (v : Json) : Prop :=
  ∀ w xs ys, w.FloatFree → NoDigit xs → NoDigit ys → v.chars ++ xs = w.chars ++ ys → v = w ∧ xs = ys

theorem noDigit_cons {c : Char} (h : ¬ c.isDigit) (cs : List Char) : NoDigit (c :: cs) := by
  intro d hd
  obtain rfl := Option.mem_some.mp hd
  exact h

theorem noDigit_itemChars (items : List Json) (cs : List Char) :
    NoDigit (itemChars false items ++ ']' :: cs) := by
  cases items <;> exact noDigit_cons (by decide) _

theorem itemChars_append_inj {items others : List Json} {first : Bool} {xs ys : List Char}
    (hfree : ∀ v ∈ items, v.FloatFree) (hitems : ∀ v ∈ items, v.Told)
    (hothers : ∀ w ∈ others, w.FloatFree)
    (h : itemChars first items ++ ']' :: xs = itemChars first others ++ ']' :: ys) :
    items = others ∧ xs = ys := by
  -- an end is no item, with or without a comma before it
  have hend : ∀ {first w rest xs ys}, w.FloatFree →
      itemChars first [] ++ ']' :: xs ≠ itemChars first (w :: rest) ++ ']' :: ys := by
    intro first w rest xs ys hw h
    cases first with
    | true => exact hw.bracket_ne (by simpa [itemChars] using h)
    | false => simp [itemChars] at h
  induction items generalizing others first with
  | nil =>
    cases others with
    | nil => exact ⟨rfl, (List.cons.inj h).2⟩
    | cons w others => exact absurd h (hend (hothers w List.mem_cons_self))
  | cons v items ih =>
    cases others with
    | nil => exact absurd h.symm (hend (hfree v List.mem_cons_self))
    | cons w others =>
      simp only [itemChars, List.append_assoc] at h
      obtain ⟨rfl, hrest⟩ := hitems v List.mem_cons_self w _ _ (hothers w List.mem_cons_self)
        (noDigit_itemChars items xs) (noDigit_itemChars others ys) (List.append_cancel_left h)
      obtain ⟨rfl, hxy⟩ := ih (fun u hu => hfree u (List.mem_cons_of_mem _ hu))
        (fun u hu => hitems u (List.mem_cons_of_mem _ hu))
        (fun u hu => hothers u (List.mem_cons_of_mem _ hu)) hrest
      exact ⟨rfl, hxy⟩

theorem noDigit_fieldChars (fields : List (String × Json)) (cs : List Char) :
    NoDigit (fieldChars false fields ++ '\x7d' :: cs) := by
  cases fields <;> exact noDigit_cons (by decide) _

theorem fieldChars_append_inj {fields others : List (String × Json)} {first : Bool}
    {xs ys : List Char} (hfields : ∀ f ∈ fields, f.2.Told) (hothers : ∀ g ∈ others, g.2.FloatFree)
    (h : fieldChars first fields ++ '\x7d' :: xs = fieldChars first others ++ '\x7d' :: ys) :
    fields = others ∧ xs = ys := by
  have hend : ∀ {first g rest xs ys},
      fieldChars first [] ++ '\x7d' :: xs ≠ fieldChars first (g :: rest) ++ '\x7d' :: ys := by
    intro first g rest xs ys
    cases first <;> simp [fieldChars, quoteChars]
  induction fields generalizing others first with
  | nil =>
    cases others with
    | nil => exact ⟨rfl, (List.cons.inj h).2⟩
    | cons g others => exact absurd h hend
  | cons f fields ih =>
    cases others with
    | nil => exact absurd h.symm hend
    | cons g others =>
      obtain ⟨name, v⟩ := f
      obtain ⟨key, w⟩ := g
      simp only [fieldChars, List.append_assoc, List.cons_append] at h
      obtain ⟨hname, htail⟩ := quoteChars_append_inj (List.append_cancel_left h)
      obtain rfl := String.toList_inj.mp hname
      obtain ⟨rfl, hrest⟩ := hfields (name, v) List.mem_cons_self w _ _
        (hothers (name, w) List.mem_cons_self) (noDigit_fieldChars fields xs)
        (noDigit_fieldChars others ys) (List.cons.inj htail).2
      obtain ⟨rfl, hxy⟩ := ih (fun u hu => hfields u (List.mem_cons_of_mem _ hu))
        (fun u hu => hothers u (List.mem_cons_of_mem _ hu)) hrest
      exact ⟨rfl, hxy⟩

/-- The first character tells the kind, and the parts are told one after the other. -/
theorem FloatFree.told {v : Json} (hv : v.FloatFree) : v.Told := by
  induction hv with
  | null =>
    intro w xs ys hw hx hy h
    have hkind := FloatFree.null.kind_eq hw h
    cases hw with
    | null => exact ⟨rfl, List.append_cancel_left h⟩
    | _ => cases hkind
  | bool b =>
    intro w xs ys hw hx hy h
    have hkind := (FloatFree.bool b).kind_eq hw h
    cases hw with
    | bool c => cases b <;> cases c <;> simp_all
    | _ => cases hkind
  | int n =>
    intro w xs ys hw hx hy h
    have hkind := (FloatFree.int n).kind_eq hw h
    cases hw with
    | int m =>
      rw [chars_int, chars_int] at h
      obtain ⟨rfl, hxy⟩ := int_append_inj hx hy h
      exact ⟨rfl, hxy⟩
    | _ => cases hkind
  | str s =>
    intro w xs ys hw hx hy h
    have hkind := (FloatFree.str s).kind_eq hw h
    cases hw with
    | str t =>
      rw [chars_str, chars_str] at h
      obtain ⟨hst, hxy⟩ := quoteChars_append_inj h
      exact ⟨congrArg Json.str (String.toList_inj.mp hst), hxy⟩
    | _ => cases hkind
  | arr parts ih =>
    intro w xs ys hw hx hy h
    have hkind := (FloatFree.arr parts).kind_eq hw h
    cases hw with
    | arr others =>
      simp only [chars_arr, List.cons_append, List.append_assoc, List.nil_append] at h
      obtain ⟨rfl, hxy⟩ := itemChars_append_inj parts ih others (List.cons.inj h).2
      exact ⟨rfl, hxy⟩
    | _ => cases hkind
  | obj parts ih =>
    intro w xs ys hw hx hy h
    have hkind := (FloatFree.obj parts).kind_eq hw h
    cases hw with
    | obj others =>
      simp only [chars_obj, List.cons_append, List.append_assoc, List.nil_append] at h
      obtain ⟨rfl, hxy⟩ := fieldChars_append_inj ih others (List.cons.inj h).2
      exact ⟨rfl, hxy⟩
    | _ => cases hkind

theorem text_inj {v w : Json} (hv : v.FloatFree) (hw : w.FloatFree) (h : v.text = w.text) : v = w := by
  have hchars : v.chars ++ [] = w.chars ++ [] := by
    rw [String.ofList_inj.mp h]
  have hend : NoDigit [] := fun _ hc => nomatch hc
  exact (hv.told w [] [] hw hend hend hchars).1

end Regroup.Json
