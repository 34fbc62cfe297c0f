/-!
Sorted lists and sets. A set is the strictly ascending list of its members, and a table is read in
ascending order of a key, rows of equal key in the order in which they stood.
-/

namespace Regroup

variable {α κ : Type}

/-- The rows in ascending order of their keys; the sort is stable. -/
def sortOn [LE κ] [DecidableLE κ] (key : α → κ) (rows : List α) : List α :=
  rows.mergeSort fun x y => decide (key x ≤ key y)

/-- One element of each run of equal elements. -/
def dropRepeats [DecidableEq α] : List α → List α
  | [] => []
  | [x] => [x]
  | x :: y :: rest => if x = y then dropRepeats (y :: rest) else x :: dropRepeats (y :: rest)

/-- Two equal elements stand next to each other. -/
def hasRepeat [DecidableEq α] : List α → Bool
  | x :: y :: rest => decide (x = y) || hasRepeat (y :: rest)
  | _ => false

/-- The members of a list as a set. -/
def ascending [LE α] [DecidableLE α] [DecidableEq α] (xs : List α) : List α :=
  dropRepeats (sortOn id xs)

/-- Changes the first element with a property. -/
def modifyFirst (p : α → Bool) (f : α → α) : List α → List α
  | [] => []
  | x :: xs => if p x then f x :: xs else x :: modifyFirst p f xs

theorem mem_dropRepeats [DecidableEq α] {a : α} {xs : List α} : a ∈ dropRepeats xs ↔ a ∈ xs := by
  fun_induction dropRepeats xs with
  | case1 => simp
  | case2 => simp
  | case3 x rest ih => simp [ih]
  | case4 x y rest h ih => simp [ih]

theorem mem_ascending [LE α] [DecidableLE α] [DecidableEq α] {a : α} {xs : List α} :
    a ∈ ascending xs ↔ a ∈ xs := by
  simp [ascending, sortOn, mem_dropRepeats]

@[simp] theorem length_modifyFirst (p : α → Bool) (f : α → α) (xs : List α) :
    (modifyFirst p f xs).length = xs.length := by
  induction xs with
  | nil => rfl
  | cons x xs ih => by_cases h : p x <;> simp [modifyFirst, h, ih]

theorem modifyFirst_eq_self {p : α → Bool} {f : α → α} {xs : List α}
    (h : ∀ x ∈ xs, p x = false) : modifyFirst p f xs = xs := by
  induction xs with
  | nil => rfl
  | cons x xs ih => simp_all [modifyFirst]

end Regroup
