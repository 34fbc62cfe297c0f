import Regroup.Proofs.BlockLimits
import Regroup.Proofs.Reservations

/-! Blocks under arithmetic that stops where a step leaves the range of signed words. Every version can
be reached from the start. On the way to the last one stands a sum that is one too large, and for a
block that ends at the largest word there is no such word. -/

namespace Regroup

namespace Word

/-- The sum of two words, none where it leaves their range. -/
def add? (m n : Int) : Option Int := signed? (m + n)

def sub? (m n : Int) : Option Int := signed? (m - n)

theorem add?_of_signed {m n : Int} (h : IsSigned (m + n)) : add? m n = some (m + n) := if_pos h

theorem add?_eq_none_iff {m n : Int} : add? m n = none ↔ ¬ IsSigned (m + n) := by
  simp [add?, signed?]

theorem sub?_of_signed {m n : Int} (h : IsSigned (m - n)) : sub? m n = some (m - n) := if_pos h

end Word

theorem mapM_eq_some_map {α β : Type} {f : α → Option β} {g : α → β} {xs : List α}
    (h : ∀ x ∈ xs, f x = some (g x)) : xs.mapM f = some (xs.map g) := by
  induction xs with
  | nil => rfl
  | cons x xs ih =>
    have hrest := ih fun y hy => h y (List.mem_cons_of_mem _ hy)
    simp [List.mapM_cons, h x List.mem_cons_self, hrest]

namespace VersionBlock

/-- The size, read as a signed word. -/
def signedSize (b : VersionBlock) : Int := Word.wrap b.size

/-- The last version step by step: the size is added before one is taken off. -/
def last? (b : VersionBlock) : Option Int := do
  let past ← Word.add? b.start b.signedSize
  Word.sub? past 1

/-- The last version is asked for only where the start is not above `v`. -/
def contains? (b : VersionBlock) (v : Int) : Option Bool :=
  if b.start ≤ v then b.last?.map fun last => decide (v ≤ last) else some false

def values? (b : VersionBlock) : Option (List Int) :=
  (List.range b.signedSize.toNat).mapM fun i : Nat => Word.add? b.start i

def text? (b : VersionBlock) : Option String := b.last?.map fun last => s!"[{b.start}, {last}]"

/-- Every number that comes up when something is asked of the block is a signed word. -/
structure StaysSigned (b : VersionBlock) : Prop where
  size : b.signedSize = b.size
  sum : Word.IsSigned (b.start + b.signedSize)
  last : Word.IsSigned (b.start + b.signedSize - 1)
  steps : ∀ i : Nat, i < b.size → Word.IsSigned (b.start + i)

/-- What comes of a block that ends at `last` when all that is asked of it is worked out step by step. -/
structure WorksOut (b : VersionBlock) (last : Int) : Prop where
  values_eq : b.values? = some b.values
  last_eq : b.last? = if last = Word.maxSigned then none else some b.last
  text_eq : b.text? = if last = Word.maxSigned then none else some b.text
  contains_eq : ∀ v, b.contains? v =
    if last = Word.maxSigned ∧ b.start ≤ v then none else some (b.contains v)

section Accepted

variable {last : Int} {count : Nat} {b : VersionBlock} (hlast : Word.IsSigned last)
  (h : endingAt last count = .ok b)

include hlast h

theorem endsAt_of_endingAt_eq_ok : b.EndsAt last count ∧ (count : Int) ≤ Word.maxSigned := by
  obtain ⟨hcount, rfl⟩ := endingAt_eq_ok h
  rw [endingAt_eq hlast, if_neg hcount] at h
  split_ifs at h with hroom
  obtain ⟨hrows, hbefore⟩ := not_or.mp hroom
  exact ⟨endsAt_of_signed hlast hcount hbefore, Int.not_lt.mp hrows⟩

theorem signedSize_eq : b.signedSize = count := by
  obtain ⟨hends, hrows⟩ := endsAt_of_endingAt_eq_ok hlast h
  unfold signedSize
  rw [hends.size]
  refine Word.wrap_eq_self ⟨?_, hrows⟩
  unfold Word.minSigned
  omega

/-- One more than the last version, which need not be a word. -/
theorem start_add_signedSize : b.start + b.signedSize = last + 1 := by
  rw [signedSize_eq hlast h, (endsAt_of_endingAt_eq_ok hlast h).1.start]
  omega

theorem sum_signed_iff : Word.IsSigned (b.start + b.signedSize) ↔ last ≠ Word.maxSigned := by
  rw [start_add_signedSize hlast h]
  unfold Word.IsSigned at hlast ⊢
  omega

theorem step_signed {i : Nat} (hi : i < count) : Word.IsSigned (b.start + i) := by
  obtain ⟨hends, -⟩ := endsAt_of_endingAt_eq_ok hlast h
  have hlength : i < b.values.length := by
    rw [hends.length]
    exact hi
  rw [← hends.ascending i hlength]
  exact hends.signed _ (List.getElem_mem hlength)

theorem values?_eq : b.values? = some b.values := by
  obtain ⟨hends, -⟩ := endsAt_of_endingAt_eq_ok hlast h
  have hsteps : ∀ i ∈ List.range count, Word.add? b.start (i : Int) = some (b.start + i) :=
    fun i hi => Word.add?_of_signed (step_signed hlast h (List.mem_range.mp hi))
  rw [values?, signedSize_eq hlast h, Int.toNat_natCast, mapM_eq_some_map hsteps, values,
    firstValues, hends.size, Nat.min_self]

theorem last?_eq : b.last? = if last = Word.maxSigned then none else some b.last := by
  have hsum := start_add_signedSize hlast h
  unfold last?
  split_ifs with hend
  -- nothing can be taken off a sum that is no word
  · have hover : Word.add? b.start b.signedSize = none :=
      Word.add?_eq_none_iff.mpr fun hsigned => (sum_signed_iff hlast h).mp hsigned hend
    rw [hover]
    rfl
  · have hback : b.start + b.signedSize - 1 = b.last := by
      rw [hsum, (endsAt_of_endingAt_eq_ok hlast h).1.last_eq]
      omega
    have hsigned : Word.IsSigned (b.start + b.signedSize - 1) := by
      rw [hsum, Int.add_sub_cancel]
      exact hlast
    rw [Word.add?_of_signed ((sum_signed_iff hlast h).mpr hend)]
    show Word.sub? (b.start + b.signedSize) 1 = some b.last
    rw [Word.sub?_of_signed hsigned, hback]

theorem staysSigned_iff : b.StaysSigned ↔ last ≠ Word.maxSigned := by
  obtain ⟨hends, -⟩ := endsAt_of_endingAt_eq_ok hlast h
  have hsum := start_add_signedSize hlast h
  constructor
  · intro hstays
    exact (sum_signed_iff hlast h).mp hstays.sum
  · intro hbelow
    refine ⟨?_, (sum_signed_iff hlast h).mpr hbelow, ?_, fun i hi => ?_⟩
    · rw [signedSize_eq hlast h, hends.size]
    · rw [hsum, Int.add_sub_cancel]
      exact hlast
    · rw [hends.size] at hi
      exact step_signed hlast h hi

theorem worksOut : b.WorksOut last where
  values_eq := values?_eq hlast h
  last_eq := last?_eq hlast h
  text_eq := by
    rw [text?, last?_eq hlast h]
    split_ifs <;> rfl
  contains_eq v := by
    rw [contains?, last?_eq hlast h]
    by_cases hstart : b.start ≤ v
    · split_ifs <;> simp_all [contains]
    · simp [contains, hstart]

end Accepted

/-- A counter in memory that grants a block comes to its last version. -/
theorem value_of_draw {c c' : Memory.Counters} {counter : String} {n : Nat} {b : VersionBlock}
    (hwords : c.AreWords) (h : c.draw counter n = (.ok (some b), c')) :
    c'.value counter = b.last := by
  have hsettles := Memory.Counters.draw_settles hwords counter n
  rw [h] at hsettles
  cases hsettles with
  | granted hn hshort hvalue =>
    simp only [hvalue, last]
    omega

/-- Nothing that is asked of an accepted block leaves the range of words, unless the block ends at the
largest word. Then its versions can still be worked out one by one, and whatever needs the last one
stops. A counter in memory grants such a block when it comes to its end. -/
theorem works_out_below_end {last : Int} {count : Nat} {b : VersionBlock}
    (hlast : Word.IsSigned last) (h : endingAt last count = .ok b) :
    (b.StaysSigned ↔ last ≠ Word.maxSigned) ∧ b.WorksOut last ∧
      ∀ (c : Memory.Counters) counter n c', c.AreWords →
        c.draw counter n = (.ok (some b), c') → c'.value counter = last := by
  refine ⟨staysSigned_iff hlast h, worksOut hlast h, fun c counter n c' hwords hdraw => ?_⟩
  rw [value_of_draw hwords hdraw, (endsAt_of_endingAt_eq_ok hlast h).1.last_eq]

/-- One counter has three versions left. -/
def brink : Memory.Counters :=
  { values := Dictionary.empty.insert "seq:friend" (Word.maxSigned - 3) }

theorem brink_words : brink.AreWords := by
  intro counter
  unfold Memory.Counters.value brink
  rw [Dictionary.get?_insert, Dictionary.get?_empty]
  split_ifs <;> decide

/-- Of the three versions two make a block that can be printed, all three make one that cannot. At the
other end of the range every block that is accepted can. -/
theorem works_out_below_end_brink :
    let two : VersionBlock := ⟨Word.maxSigned - 2, 2⟩
    let three : VersionBlock := ⟨Word.maxSigned - 2, 3⟩
    let lowest : VersionBlock := ⟨Word.minSigned + 1, 1⟩
    endingAt (Word.maxSigned - 1) 2 = .ok two ∧ two.StaysSigned ∧
      two.text? = some "[9223372036854775805, 9223372036854775806]" ∧
      two.contains? Word.maxSigned = some false ∧
      endingAt Word.maxSigned 3 = .ok three ∧ ¬ three.StaysSigned ∧ three.text? = none ∧
      three.contains? (Word.maxSigned - 3) = some false ∧
      three.values? = some [9223372036854775805, 9223372036854775806, 9223372036854775807] ∧
      brink.AreWords ∧ (brink.draw "seq:friend" 3).1 = .ok (some three) ∧
      (brink.draw "seq:friend" 3).2.value "seq:friend" = Word.maxSigned ∧
      endingAt (Word.minSigned + 1) 1 = .ok lowest ∧ lowest.StaysSigned := by
  intro two three lowest
  have htwo : endingAt (Word.maxSigned - 1) 2 = .ok two := by decide
  have hthree : endingAt Word.maxSigned 3 = .ok three := by decide
  have hlowest : endingAt (Word.minSigned + 1) 1 = .ok lowest := by decide
  have hdrawn : (brink.draw "seq:friend" 3).1 = .ok (some three) := by cbv
  obtain ⟨hbelow, hprinted, -⟩ := works_out_below_end (by decide) htwo
  obtain ⟨hat, hstopped, hvalue⟩ := works_out_below_end (by decide) hthree
  obtain ⟨habove, -, -⟩ := works_out_below_end (by decide) hlowest
  refine ⟨htwo, hbelow.mpr (by decide), ?_, ?_, hthree, fun hstays => hat.mp hstays rfl, ?_, ?_, ?_,
    brink_words, hdrawn, ?_, hlowest, habove.mpr (by decide)⟩
  · rw [hprinted.text_eq]
    decide
  · rw [hprinted.contains_eq]
    decide
  · rw [hstopped.text_eq]
    decide
  · rw [hstopped.contains_eq]
    decide
  · rw [hstopped.values_eq]
    decide
  · exact hvalue brink "seq:friend" 3 _ brink_words (Prod.ext hdrawn rfl)

/-- A block that ends at the largest word is accepted, and a counter that comes to its end grants one.
One more than its last version is no word, so whatever needs the last version stops. -/
theorem last_version_overflows :
    let b : VersionBlock := ⟨Word.maxSigned, 1⟩
    let granted : VersionBlock := ⟨Word.maxSigned - 2, 3⟩
    Word.IsSigned Word.maxSigned ∧ endingAt Word.maxSigned 1 = .ok b ∧
      b.start + b.signedSize = 9223372036854775808 ∧ ¬ b.StaysSigned ∧
      b.last? = none ∧ b.contains? Word.maxSigned = none ∧ b.text? = none ∧
      (brink.draw "seq:friend" 3).1 = .ok (some granted) ∧ granted.text? = none := by
  intro b granted
  have hsum : ¬ Word.IsSigned (b.start + b.signedSize) := by decide
  have hdrawn : (brink.draw "seq:friend" 3).1 = .ok (some granted) := by cbv
  have hgranted : granted.text? = none := by decide
  exact ⟨by decide, by decide, by decide, fun hstays => hsum hstays.sum, by decide, by decide,
    by decide, hdrawn, hgranted⟩

end VersionBlock

end Regroup
