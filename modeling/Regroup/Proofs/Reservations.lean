import Regroup.Proofs.Abandonment
import Regroup.Proofs.Feasibility

/-! Blocks that are drawn from counters in memory by any number of parties, in any order. A counter
only goes forward, and by just what it grants, so its blocks stand one behind the other without a
gap from its first value to its last. -/

namespace Regroup

/-- The blocks stand one behind the other, and between them they hold just the versions above `low`
up to `high`. -/
structure Tiles (low high : Int) (blocks : List VersionBlock) : Prop where
  le : low ≤ high
  filled : ∀ b ∈ blocks, b.size ≠ 0
  ascending : blocks.Pairwise fun b b' => b.last < b'.start
  disjoint : blocks.Pairwise fun b b' => b.values.Disjoint b'.values
  covered : ∀ v, (∃ b ∈ blocks, v ∈ b.values) ↔ low < v ∧ v ≤ high

theorem Tiles.nil (low : Int) : Tiles low low [] := by
  refine ⟨Int.le_refl _, by simp, .nil, .nil, fun v => ?_⟩
  constructor
  · rintro ⟨b, hb, -⟩
    simp at hb
  · rintro ⟨hlow, hhigh⟩
    omega

theorem Tiles.cons {low high : Int} {n : Nat} {blocks : List VersionBlock} (hn : n ≠ 0)
    (h : Tiles (low + n) high blocks) : Tiles low high (⟨low + 1, n⟩ :: blocks) := by
  have hhigh := h.le
  have hlast : (VersionBlock.mk (low + 1) n).last = low + n := by
    simp only [VersionBlock.last]
    omega
  have hfirst : ∀ v, v ∈ (VersionBlock.mk (low + 1) n).values ↔ low < v ∧ v ≤ low + n := by
    intro v
    have hstart : (VersionBlock.mk (low + 1) n).start = low + 1 := rfl
    rw [VersionBlock.mem_values, hlast, hstart]
    omega
  have hrest : ∀ b ∈ blocks, ∀ v ∈ b.values, low + n < v :=
    fun b hb v hv => ((h.covered v).mp ⟨b, hb, hv⟩).1
  refine ⟨by omega, ?_, List.pairwise_cons.mpr ⟨fun b hb => ?_, h.ascending⟩,
    List.pairwise_cons.mpr ⟨fun b hb v hv hv' => ?_, h.disjoint⟩, fun v => ?_⟩
  · intro b hb
    rcases List.mem_cons.mp hb with rfl | hb
    · exact hn
    · exact h.filled b hb
  -- a block that holds anything holds its start
  · have hsize := h.filled b hb
    have hstart : b.start ∈ b.values := VersionBlock.mem_values.mpr
      ⟨Int.le_refl _, by simp only [VersionBlock.last]; omega⟩
    have hlt := hrest b hb b.start hstart
    omega
  · have hle := ((hfirst v).mp hv).2
    have hlt := hrest b hb v hv'
    omega
  · have hcovered := h.covered v
    simp only [List.mem_cons, exists_eq_or_imp, hfirst, hcovered]
    omega

namespace Memory

open Attempt

/-- What is asked of counters by those who share them, and what befalls them. -/
inductive Demand where
  | reserve (counter : String) (count : Nat)
  | connect (up : Bool)

namespace Counters

/-- The outcome of a demand for a block. -/
def draw (c : Counters) (counter : String) (n : Nat) :
    Except Failure (Option VersionBlock) × Counters :=
  (reserveBlock backend reserve counter n).outcome c

def meet (c : Counters) : Demand → Counters
  | .reserve counter n => (c.draw counter n).2
  | .connect up => { c with reachable := up }

def after (c : Counters) (demands : List Demand) : Counters := demands.foldl meet c

/-- The block that a demand is answered with, by the name of its counter. -/
def answer? (c : Counters) : Demand → Option (String × VersionBlock)
  | .reserve counter n =>
    match (c.draw counter n).1 with
    | .ok b => b.map fun b => (counter, b)
    | .error _ => none
  | .connect _ => none

/-- The blocks that were granted, in order. -/
def blocks (c : Counters) : List Demand → List (String × VersionBlock)
  | [] => []
  | d :: demands => (c.answer? d).toList ++ (c.meet d).blocks demands

def blocksOf (c : Counters) (counter : String) (demands : List Demand) : List VersionBlock :=
  ((c.blocks demands).filter (·.1 == counter)).map Prod.snd

def AreWords (c : Counters) : Prop := ∀ counter, Word.IsSigned (c.value counter)

/-- There is no connection, or no room for so many versions. -/
def FallsShort (c : Counters) (counter : String) (n : Nat) : Prop :=
  c.reachable = false ∨ Word.maxSigned < n ∨ Word.maxSigned < c.value counter + n

/-- How a demand for `n` versions ends and which counters it leaves. -/
inductive Settles (c : Counters) (counter : String) (n : Nat) :
    Except Failure (Option VersionBlock) → Counters → Prop
  | nothing (hn : n = 0) : Settles c counter n (.ok none) c
  | refused {f : Failure} (hn : n ≠ 0) (hshort : c.FallsShort counter n)
      (hcause : ∀ e, f.cause ≠ .block e) : Settles c counter n (.error f) c
  | granted {c' : Counters} (hn : n ≠ 0) (hroom : ¬ c.FallsShort counter n)
      (hvalue : c'.value counter = c.value counter + n)
      (hothers : ∀ other, other ≠ counter → c'.value other = c.value other)
      (hlog : c'.grants = c.grants ++ [(counter, n)]) :
      Settles c counter n (.ok (some ⟨c.value counter + 1, n⟩)) c'

variable {c c' : Counters} {counter : String} {n : Nat}

theorem hasRoom_of_not_fallsShort (hwords : c.AreWords) (h : ¬ c.FallsShort counter n) :
    c.HasRoom counter n := by
  have hlow := (hwords counter).1
  unfold FallsShort at h
  simp only [not_or, Int.not_lt] at h
  obtain ⟨-, hrows, htotal⟩ := h
  exact ⟨hwords counter, hrows, by omega, htotal⟩

theorem reserve_of_fallsShort (h : c.FallsShort counter n) :
    ∃ cause, (reserve counter n).outcome c = (.error (.ofCause cause), c) ∧
      ∀ e, cause ≠ .block e := by
  rw [reserve, outcome_get_bind]
  by_cases hup : c.reachable = true
  · by_cases hrows : Word.maxSigned < (n : Int)
    · simp only [hup, Bool.not_true, Bool.false_eq_true, if_false, hrows, if_true]
      exact ⟨_, rfl, by simp⟩
    · have htotal : Word.maxSigned < c.value counter + n := by simpa [FallsShort, hup, hrows] using h
      have hnone : Word.signed? (c.value counter + n) = none :=
        if_neg fun hsigned => Int.not_lt.mpr hsigned.2 htotal
      simp only [hup, Bool.not_true, Bool.false_eq_true, if_false, hrows, hnone]
      exact ⟨_, rfl, by simp⟩
  · have hdown : c.reachable = false := Bool.eq_false_iff.mpr hup
    simp only [hdown, Bool.not_false, if_true]
    exact ⟨_, rfl, by simp⟩

theorem reserve_of_not_fallsShort (hwords : c.AreWords) (hn : n ≠ 0)
    (h : ¬ c.FallsShort counter n) :
    (reserve counter n).outcome c = (.ok (c.value counter + n), c.grant counter n) := by
  have hup : c.reachable = true := by simpa using (not_or.mp h).1
  have hok := reserve_of_hasRoom hup (hasRoom_of_not_fallsShort hwords h)
  have hspent := (reserve_eq_ok hn (Prod.ext hok rfl)).2
  exact Prod.ext hok hspent

theorem draw_settles (hwords : c.AreWords) (counter : String) (n : Nat) :
    c.Settles counter n (c.draw counter n).1 (c.draw counter n).2 := by
  unfold draw reserveBlock
  by_cases hn : n = 0
  · simp only [hn, if_true]
    exact .nothing rfl
  · simp only [hn, if_false]
    rw [outcome_bind, outcome_within]
    by_cases hshort : c.FallsShort counter n
    · obtain ⟨cause, hreserve, hcause⟩ := reserve_of_fallsShort hshort
      rw [hreserve]
      exact .refused hn hshort hcause
    · have hroom := hasRoom_of_not_fallsShort hwords hshort
      rw [reserve_of_not_fallsShort hwords hn hshort]
      simp only [Except.mapError]
      rw [outcome_bind, VersionBlock.endingAt_of_signed hn hroom.value hroom.rows]
      refine .granted hn hshort ?_ (fun other hother => ?_) ?_
      · show (c.grant counter n).value counter = _
        rw [value_grant, if_pos rfl]
      · show (c.grant counter n).value other = _
        rw [value_grant, if_neg hother]
      · show (c.grant counter n).grants = _
        rw [grant, if_neg hn]

theorem meet_cases (hwords : c.AreWords) (d : Demand) :
    (c.answer? d = none ∧ (∀ counter, (c.meet d).value counter = c.value counter) ∧
      (c.meet d).grants = c.grants) ∨
    ∃ counter n, n ≠ 0 ∧ c.answer? d = some (counter, ⟨c.value counter + 1, n⟩) ∧
      c.HasRoom counter n ∧ (c.meet d).value counter = c.value counter + n ∧
      (∀ other, other ≠ counter → (c.meet d).value other = c.value other) ∧
      (c.meet d).grants = c.grants ++ [(counter, n)] := by
  cases d with
  | connect up => exact .inl ⟨rfl, fun _ => rfl, rfl⟩
  | reserve counter n =>
    have hsettles := draw_settles hwords counter n
    have hmeet : c.meet (.reserve counter n) = (c.draw counter n).2 := rfl
    have hanswer : c.answer? (.reserve counter n) = match (c.draw counter n).1 with
      | .ok b => b.map fun b => (counter, b)
      | .error _ => none := rfl
    rw [hmeet, hanswer]
    generalize c.draw counter n = out at hsettles ⊢
    obtain ⟨reply, c'⟩ := out
    cases hsettles with
    | nothing => exact .inl ⟨rfl, fun _ => rfl, rfl⟩
    | refused => exact .inl ⟨rfl, fun _ => rfl, rfl⟩
    | granted hn hroom hvalue hothers hlog =>
      exact .inr ⟨counter, n, hn, rfl, hasRoom_of_not_fallsShort hwords hroom, hvalue, hothers,
        hlog⟩

theorem meet_words (hwords : c.AreWords) (d : Demand) : (c.meet d).AreWords := by
  intro other
  rcases meet_cases hwords d with ⟨-, hvalue, -⟩ | ⟨counter, n, -, -, hroom, hvalue, hothers, -⟩
  · rw [hvalue]
    exact hwords other
  · by_cases hother : other = counter
    · rw [hother, hvalue]
      exact hroom.total
    · rw [hothers other hother]
      exact hwords other

theorem after_words (hwords : c.AreWords) (demands : List Demand) : (c.after demands).AreWords := by
  induction demands generalizing c with
  | nil => exact hwords
  | cons d demands ih => exact ih (meet_words hwords d)

/-- The log of reservations is the list of the blocks that were granted. -/
theorem grants_after (hwords : c.AreWords) (demands : List Demand) :
    (c.after demands).grants =
      c.grants ++ (c.blocks demands).map fun g => (g.1, g.2.size) := by
  induction demands generalizing c with
  | nil => simp [after, blocks]
  | cons d demands ih =>
    have hrest := ih (meet_words hwords d)
    have hafter : c.after (d :: demands) = (c.meet d).after demands := rfl
    rw [hafter, hrest, blocks]
    rcases meet_cases hwords d with ⟨hanswer, -, hlog⟩ | ⟨counter, n, -, hanswer, -, -, -, hlog⟩
    · simp [hanswer, hlog]
    · simp [hanswer, hlog]

theorem tiles_blocksOf (hwords : c.AreWords) (counter : String) (demands : List Demand) :
    Tiles (c.value counter) ((c.after demands).value counter) (c.blocksOf counter demands) := by
  induction demands generalizing c with
  | nil => exact Tiles.nil _
  | cons d demands ih =>
    have hrest := ih (meet_words hwords d)
    have hafter : c.after (d :: demands) = (c.meet d).after demands := rfl
    rw [hafter]
    rcases meet_cases hwords d with
      ⟨hanswer, hvalue, -⟩ | ⟨drawn, n, hn, hanswer, -, hvalue, hothers, -⟩
    · have hblocks : c.blocksOf counter (d :: demands) = (c.meet d).blocksOf counter demands := by
        simp [blocksOf, blocks, hanswer]
      rw [hblocks, ← hvalue]
      exact hrest
    · by_cases hname : drawn = counter
      · subst hname
        have hblocks : c.blocksOf drawn (d :: demands) =
            ⟨c.value drawn + 1, n⟩ :: (c.meet d).blocksOf drawn demands := by
          simp [blocksOf, blocks, hanswer]
        rw [hblocks]
        rw [hvalue] at hrest
        exact hrest.cons hn
      · have hblocks : c.blocksOf counter (d :: demands) =
            (c.meet d).blocksOf counter demands := by
          simp [blocksOf, blocks, hanswer, hname]
        rw [hblocks, ← hothers counter (Ne.symm hname)]
        exact hrest

end Counters

/-- Whoever draws on the counters and whatever befalls them in between, every demand settles, and
the last version that a reservation answers always yields the block. The log lists the blocks that
were granted, and those of one counter hold each version between its first value and its last just
once, in order. -/
theorem reservations_tile {c : Counters} (hwords : c.AreWords) (demands : List Demand) :
    (∀ counter n, (c.after demands).Settles counter n
      ((c.after demands).draw counter n).1 ((c.after demands).draw counter n).2) ∧
    (∀ counter n last c', n ≠ 0 →
      (Counters.reserve counter n).outcome (c.after demands) = (.ok last, c') →
      VersionBlock.endingAt last n = .ok ⟨(c.after demands).value counter + 1, n⟩) ∧
    (c.after demands).grants =
      c.grants ++ (c.blocks demands).map (fun g => (g.1, g.2.size)) ∧
    ∀ counter, Tiles (c.value counter) ((c.after demands).value counter)
      (c.blocksOf counter demands) := by
  have hafter := Counters.after_words hwords demands
  refine ⟨Counters.draw_settles hafter, fun counter n last c' hn hreserve => ?_,
    Counters.grants_after hwords demands, fun counter => Counters.tiles_blocksOf hwords counter demands⟩
  by_cases hshort : (c.after demands).FallsShort counter n
  · obtain ⟨cause, hrefused, -⟩ := Counters.reserve_of_fallsShort hshort
    rw [hrefused] at hreserve
    exact absurd (Prod.mk.inj hreserve).1 (by simp)
  · have hroom := Counters.hasRoom_of_not_fallsShort hafter hshort
    rw [Counters.reserve_of_not_fallsShort hafter hn hshort] at hreserve
    have hlast := Except.ok.inj (Prod.mk.inj hreserve).1
    rw [← hlast]
    exact VersionBlock.endingAt_of_signed hn hroom.value hroom.rows

/-- One counter is about to end and the other one stands at the lowest word. -/
def outermost : Counters :=
  { values := (Dictionary.empty.insert "seq:friend" (Word.maxSigned - 3)).insert
      "seq:friendGroup" Word.minSigned }

def contention : List Demand :=
  [.reserve "seq:friend" 2, .reserve "seq:friendGroup" Word.maxUnsigned, .connect false,
    .reserve "seq:friendGroup" 5, .connect true, .reserve "seq:friendGroup" 3,
    .reserve "seq:friend" 0, .reserve "seq:friend" 2, .reserve "seq:friend" 1]

theorem outermost_words : outermost.AreWords := by
  intro counter
  unfold Counters.value outermost
  rw [Dictionary.get?_insert, Dictionary.get?_insert, Dictionary.get?_empty]
  by_cases hgroup : counter = "seq:friendGroup"
  · rw [if_pos hgroup]
    decide
  · by_cases hedge : counter = "seq:friend"
    · rw [if_neg hgroup, if_pos hedge]
      decide
    · rw [if_neg hgroup, if_neg hedge]
      decide

theorem reservations_tile_outermost : outermost.AreWords ∧
    (outermost.after contention).grants =
      [("seq:friend", 2), ("seq:friendGroup", 3), ("seq:friend", 1)] ∧
    (outermost.after contention).grants =
      (outermost.blocks contention).map (fun g => (g.1, g.2.size)) ∧
    Tiles (Word.maxSigned - 3) Word.maxSigned
      [⟨Word.maxSigned - 2, 2⟩, ⟨Word.maxSigned, 1⟩] ∧
    (Counters.reserve "seq:friendGroup" 9223372036854775807).outcome (outermost.after contention) =
      (.ok 2, (outermost.after contention).grant "seq:friendGroup" 9223372036854775807) ∧
    VersionBlock.endingAt 2 9223372036854775807 =
      .ok ⟨Word.minSigned + 4, 9223372036854775807⟩ := by
  obtain ⟨-, hending, hlog, htiles⟩ := reservations_tile outermost_words contention
  have hreserve : (Counters.reserve "seq:friendGroup" 9223372036854775807).outcome
      (outermost.after contention) =
      (.ok 2, (outermost.after contention).grant "seq:friendGroup" 9223372036854775807) := by cbv
  have hblocks : outermost.blocksOf "seq:friend" contention =
      [⟨Word.maxSigned - 2, 2⟩, ⟨Word.maxSigned, 1⟩] := by cbv
  have hfirst : outermost.value "seq:friend" = Word.maxSigned - 3 := by cbv
  have hlast : (outermost.after contention).value "seq:friend" = Word.maxSigned := by cbv
  have hvalue : (outermost.after contention).value "seq:friendGroup" = Word.minSigned + 3 := by cbv
  have hedges := htiles "seq:friend"
  rw [hfirst, hlast, hblocks] at hedges
  have hblock := hending "seq:friendGroup" 9223372036854775807 2 _ (by decide) hreserve
  rw [hvalue] at hblock
  exact ⟨outermost_words, by cbv, hlog, hedges, hreserve, hblock⟩

end Memory

end Regroup
