import Regroup.Proofs.VersionOrder

/-! Blocks at the limits of signed words. Which ends and counts make a block is said in exact integers,
and so is what a block holds; where the arithmetic of words leaves the range on the way to the last
version, it comes back. -/

namespace Regroup

theorem Word.wrap_eq_self {n : Int} (h : IsSigned n) : wrap n = n := by
  obtain ⟨hlow, hhigh⟩ : minSigned ≤ n ∧ n ≤ maxSigned := h
  simp only [minSigned, maxSigned] at hlow hhigh
  unfold wrap maxUnsigned
  exact Int.bmod_eq_of_le (by omega) (by omega)

theorem Word.wrap_wrap_sub (m n : Int) : wrap (wrap m - n) = wrap (m - n) := by
  simp [wrap]

namespace VersionBlock

/-- Why there is no block of some count that ends at a signed word. -/
theorem endingAt_eq {last : Int} (hlast : Word.IsSigned last) (count : Nat) :
    endingAt last count =
      if count = 0 then .error .empty
      else if Word.maxSigned < count ∨ last - count < Word.minSigned then
        .error (.overflow last count)
      else .ok ⟨last - count + 1, count⟩ := by
  obtain ⟨hlow, hhigh⟩ : Word.minSigned ≤ last ∧ last ≤ Word.maxSigned := hlast
  by_cases hzero : count = 0
  · simp [endingAt, hzero]
  by_cases hlarge : Word.maxSigned < count
  · simp [endingAt, hzero, hlarge, Int.not_le.mpr hlarge]
  have hbefore : Word.IsSigned (last - count) ↔ ¬ last - count < Word.minSigned := by
    unfold Word.IsSigned
    omega
  by_cases hsmall : last - count < Word.minSigned
  · simp [endingAt, Word.signed?, hbefore, hzero, hsmall, Int.not_lt.mp hlarge]
  · simp [endingAt, Word.signed?, hbefore, hzero, hlarge, hsmall, Int.not_lt.mp hlarge]

theorem contains_iff {b : VersionBlock} {v : Int} : b.contains v ↔ v ∈ b.values := by
  rw [mem_values]
  simp [contains]

/-- Blocks that hold anything meet at the later of their starts, if they meet. -/
theorem disjoint_values_iff {b c : VersionBlock} (hb : b.size ≠ 0) (hc : c.size ≠ 0) :
    b.values.Disjoint c.values ↔ b.last < c.start ∨ c.last < b.start := by
  have hbfull : b.start ≤ b.last := by
    unfold last
    omega
  have hcfull : c.start ≤ c.last := by
    unfold last
    omega
  constructor
  · intro h
    by_contra hmeet
    obtain ⟨hbc, hcb⟩ := not_or.mp hmeet
    have hmemb : max b.start c.start ∈ b.values := mem_values.mpr (by omega)
    have hmemc : max b.start c.start ∈ c.values := mem_values.mpr (by omega)
    exact h hmemb hmemc
  · intro h v hvb hvc
    have hvb := mem_values.mp hvb
    have hvc := mem_values.mp hvc
    omega

/-- The block holds `count` versions, each one above the one before it, the last of which is `last`. -/
structure EndsAt (b : VersionBlock) (last : Int) (count : Nat) : Prop where
  size : b.size = count
  start : b.start = last - count + 1
  last_eq : b.last = last
  /-- The sum may leave the range at its upper end; one less is a word again. -/
  wrapped : Word.wrap (Word.wrap (b.start + b.size) - 1) = last
  length : b.values.length = count
  head : b.values.head? = some (last - count + 1)
  ascending : ∀ (i : Nat) (hi : i < b.values.length), b.values[i] = b.start + i
  getLast : b.values.getLast? = some last
  signed : ∀ v ∈ b.values, Word.IsSigned v
  contains_iff : ∀ v, b.contains v ↔ v ∈ b.values

theorem endsAt_of_signed {last : Int} {count : Nat} (hlast : Word.IsSigned last) (hcount : count ≠ 0)
    (hbefore : ¬ last - count < Word.minSigned) :
    EndsAt ⟨last - count + 1, count⟩ last count := by
  set b : VersionBlock := ⟨last - count + 1, count⟩
  have hstart : b.start = last - count + 1 := rfl
  have hsize : b.size = count := rfl
  have hend : b.last = last := by
    unfold VersionBlock.last
    omega
  have hlength : b.values.length = count := b.length_values
  refine ⟨hsize, hstart, hend, ?_, hlength, ?_, b.getElem_values, ?_, ?_, fun _ => contains_iff⟩
  · have hsum : b.start + b.size - 1 = last := by omega
    rw [Word.wrap_wrap_sub, hsum, Word.wrap_eq_self hlast]
  · rw [List.head?_eq_getElem?, List.getElem?_eq_getElem (by omega), getElem_values]
    simp [hstart]
  · rw [List.getLast?_eq_getElem?, List.getElem?_eq_getElem (by omega), getElem_values, hlength]
    congr 1
    omega
  · intro v hv
    obtain ⟨hlow, hhigh⟩ := mem_values.mp hv
    unfold Word.IsSigned at hlast ⊢
    omega

/-- Refused are only no versions at all, too many of them, and versions that no signed word comes before.
Any other block ends where it should and holds what it should, and two of them share nothing if and
only if one of them ends below the start of the other. -/
theorem endingAt_exact {last : Int} (hlast : Word.IsSigned last) (count : Nat) :
    (endingAt last count = .error .empty ↔ count = 0) ∧
      (endingAt last count = .error (.overflow last count) ↔
        Word.maxSigned < count ∨ last - count < Word.minSigned) ∧
      (count ≠ 0 → ¬ (Word.maxSigned < count ∨ last - count < Word.minSigned) →
        ∃ b, endingAt last count = .ok b ∧ b.EndsAt last count) ∧
      ∀ last' count' b b', endingAt last count = .ok b → endingAt last' count' = .ok b' →
        (b.values.Disjoint b'.values ↔ b.last < b'.start ∨ b'.last < b.start) := by
  have hword : Word.minSigned ≤ last ∧ last ≤ Word.maxSigned := hlast
  refine ⟨?_, ?_, fun hcount hroom => ?_, fun last' count' b b' hb hb' => ?_⟩
  · rw [endingAt_eq hlast]
    split_ifs <;> simp_all
  · rw [endingAt_eq hlast]
    split_ifs with hcount hroom
    · simp only [hcount, Word.minSigned, Word.maxSigned] at hword ⊢
      simp
      omega
    · simpa using hroom
    · simpa using hroom
  · rw [endingAt_eq hlast, if_neg hcount, if_neg hroom]
    exact ⟨_, rfl, endsAt_of_signed hlast hcount fun h => hroom (.inr h)⟩
  · obtain ⟨hcount, rfl⟩ := endingAt_eq_ok hb
    obtain ⟨hcount', rfl⟩ := endingAt_eq_ok hb'
    exact disjoint_values_iff hcount hcount'

/-- At the upper end the largest block fits, and so do two small ones side by side; at the lower end
there is no room for a single version. -/
theorem endingAt_exact_outermost :
    (∃ b, endingAt Word.maxSigned 9223372036854775807 = .ok b ∧
        b.EndsAt Word.maxSigned 9223372036854775807) ∧
      endingAt Word.minSigned 1 = .error (.overflow Word.minSigned 1) ∧
      (VersionBlock.mk Word.maxSigned 1).values.Disjoint
        (VersionBlock.mk (Word.maxSigned - 2) 2).values := by
  have hmax : Word.IsSigned Word.maxSigned := by decide
  have hmin : Word.IsSigned Word.minSigned := by decide
  obtain ⟨-, -, hfits, -⟩ := endingAt_exact hmax 9223372036854775807
  obtain ⟨-, hoverflow, -, -⟩ := endingAt_exact hmin 1
  obtain ⟨-, -, -, hdisjoint⟩ := endingAt_exact hmax 1
  refine ⟨hfits (by decide) (by decide), hoverflow.mpr (by decide), ?_⟩
  exact (hdisjoint (Word.maxSigned - 1) 2 _ _ (by decide) (by decide)).mpr (.inr (by decide))

end VersionBlock

end Regroup
