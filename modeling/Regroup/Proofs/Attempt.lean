import Mathlib.Order.Defs.Unbundled
import Regroup.Run.Failure

/-! What becomes of a state when attempts are made one after the other: how a sequence succeeds, and
which relations between the state before and the state after survive every outcome, and when two
attempts over different states come to the same end. -/

namespace Regroup.Attempt

variable {σ τ α β : Type}

/-- How an attempt ends and the state that it leaves. -/
def outcome (x : Attempt σ α) (s : σ) : Except Failure α × σ := x s

theorem outcome_bind (x : Attempt σ α) (f : α → Attempt σ β) (s : σ) :
    (x >>= f).outcome s = match x.outcome s with
      | (.ok a, t) => (f a).outcome t
      | (.error e, t) => (.error e, t) := by
  simp only [outcome, bind, ExceptT.bind, ExceptT.mk, StateT.bind, ExceptT.bindCont]
  cases x s with
  | mk r t => cases r <;> rfl

@[simp] theorem outcome_pure (a : α) (s : σ) : (pure a : Attempt σ α).outcome s = (.ok a, s) := rfl

@[simp] theorem outcome_fail (c : Cause) (s : σ) :
    (fail c : Attempt σ α).outcome s = (.error (.ofCause c), s) := rfl

theorem outcome_get_bind (f : σ → Attempt σ α) (s : σ) :
    ((get : Attempt σ σ) >>= f).outcome s = (f s).outcome s := rfl

theorem outcome_modify_bind (g : σ → σ) (f : PUnit → Attempt σ α) (s : σ) :
    ((modify g : Attempt σ PUnit) >>= f).outcome s = (f ()).outcome (g s) := rfl

theorem outcome_set_bind (s' : σ) (f : PUnit → Attempt σ α) (s : σ) :
    ((set s' : Attempt σ PUnit) >>= f).outcome s = (f ()).outcome s' := rfl

theorem outcome_within (x : Attempt σ α) (c : Context) (s : σ) :
    (x.within c).outcome s = ((x.outcome s).1.mapError (Failure.within c), (x.outcome s).2) := by
  show within c x s = _
  unfold within
  rcases h : x.outcome s with ⟨_ | a, t⟩ <;> (rw [outcome] at h; rw [h]; rfl)

theorem outcome_orElseUndo (x : Attempt σ α) (undo : Attempt σ Unit) (s : σ) :
    (x.orElseUndo undo).outcome s = match x.outcome s with
      | (.ok a, t) => (.ok a, t)
      | (.error e, t) => (.error e, (undo.outcome t).2) := by
  show orElseUndo x undo s = _
  unfold orElseUndo
  rcases h : x.outcome s with ⟨_ | a, t⟩ <;> (rw [outcome] at h; rw [h])
  rfl

theorem outcome_map (f : α → β) (x : Attempt σ α) (s : σ) :
    (f <$> x).outcome s = ((x.outcome s).1.map f, (x.outcome s).2) := by
  rw [map_eq_pure_bind, outcome_bind]
  rcases x.outcome s with ⟨_ | a, t⟩ <;> rfl

theorem map_within (f : α → β) (x : Attempt σ α) (c : Context) :
    (f <$> x).within c = f <$> x.within c := by
  funext s
  show ((f <$> x).within c).outcome s = (f <$> x.within c).outcome s
  rw [outcome_within, outcome_map, outcome_map, outcome_within]
  rcases x.outcome s with ⟨_ | a, t⟩ <;> rfl

theorem map_orElseUndo (f : α → β) (x : Attempt σ α) (undo : Attempt σ Unit) :
    (f <$> x).orElseUndo undo = f <$> x.orElseUndo undo := by
  funext s
  show ((f <$> x).orElseUndo undo).outcome s = (f <$> x.orElseUndo undo).outcome s
  rw [outcome_orElseUndo, outcome_map, outcome_map, outcome_orElseUndo]
  rcases x.outcome s with ⟨_ | a, t⟩ <;> rfl

theorem outcome_zoom (get : σ → τ) (set : σ → τ → σ) (x : Attempt τ α) (s : σ) :
    (x.zoom get set).outcome s = ((x.outcome (get s)).1, set s (x.outcome (get s)).2) := rfl

theorem bind_eq_ok {x : Attempt σ α} {f : α → Attempt σ β} {s t : σ} {b : β} :
    (x >>= f).outcome s = (.ok b, t) ↔
      ∃ a u, x.outcome s = (.ok a, u) ∧ (f a).outcome u = (.ok b, t) := by
  rw [outcome_bind]
  rcases x.outcome s with ⟨_ | a, u⟩ <;> simp [and_assoc]

theorem bind_eq_error {x : Attempt σ α} {f : α → Attempt σ β} {s t : σ} {e : Failure} :
    (x >>= f).outcome s = (.error e, t) ↔ x.outcome s = (.error e, t) ∨
      ∃ a u, x.outcome s = (.ok a, u) ∧ (f a).outcome u = (.error e, t) := by
  rw [outcome_bind]
  rcases x.outcome s with ⟨_ | a, u⟩ <;> simp [and_assoc]

theorem within_eq_ok {x : Attempt σ α} {c : Context} {s t : σ} {a : α} :
    (x.within c).outcome s = (.ok a, t) ↔ x.outcome s = (.ok a, t) := by
  rw [outcome_within]
  rcases x.outcome s with ⟨e | b, u⟩
  · constructor <;> intro h <;> cases h
  · exact Iff.rfl

theorem within_eq_error {x : Attempt σ α} {c : Context} {s t : σ} {e : Failure} :
    (x.within c).outcome s = (.error e, t) ↔
      ∃ e', x.outcome s = (.error e', t) ∧ e = e'.within c := by
  rw [outcome_within]
  rcases x.outcome s with ⟨e' | b, u⟩
  · constructor
    · intro h
      obtain ⟨he, rfl⟩ := Prod.mk.inj h
      exact ⟨e', rfl, (Except.error.inj he).symm⟩
    · rintro ⟨_, h, rfl⟩
      cases h
      rfl
  · constructor
    · intro h
      cases h
    · rintro ⟨_, h, -⟩
      cases h

theorem orElseUndo_eq_ok {x : Attempt σ α} {undo : Attempt σ Unit} {s t : σ} {a : α} :
    (x.orElseUndo undo).outcome s = (.ok a, t) ↔ x.outcome s = (.ok a, t) := by
  rw [outcome_orElseUndo]
  rcases x.outcome s with ⟨_ | b, u⟩ <;> simp

theorem orElseUndo_eq_error {x : Attempt σ α} {undo : Attempt σ Unit} {s t : σ} {e : Failure} :
    (x.orElseUndo undo).outcome s = (.error e, t) ↔
      ∃ u, x.outcome s = (.error e, u) ∧ t = (undo.outcome u).2 := by
  rw [outcome_orElseUndo]
  rcases x.outcome s with ⟨e' | b, u⟩
  · constructor
    · intro h
      obtain ⟨he, ht⟩ := Prod.mk.inj h
      exact ⟨u, by rw [Except.error.inj he], ht.symm⟩
    · rintro ⟨_, h, rfl⟩
      cases h
      rfl
  · constructor
    · intro h
      cases h
    · rintro ⟨_, h, -⟩
      cases h

theorem ofBlock_eq_ok {x : Except BlockError α} {s t : σ} {a : α} :
    (ofBlock x).outcome s = (.ok a, t) ↔ x = .ok a ∧ s = t := by
  cases x <;> simp [ofBlock]

theorem ofCheck_eq_ok {x : Except ApplyMismatch α} {s t : σ} {a : α} :
    (ofCheck x).outcome s = (.ok a, t) ↔ x = .ok a ∧ s = t := by
  cases x <;> simp [ofCheck]

theorem outcome_bind_of_ok {x : Attempt σ α} {s t : σ} {a : α} (h : x.outcome s = (.ok a, t))
    (f : α → Attempt σ β) : (x >>= f).outcome s = (f a).outcome t := by
  rw [outcome_bind, h]

theorem exists_eq_ok {x : Attempt σ α} {s : σ} (h : (x.outcome s).1.isOk = true) :
    ∃ a, x.outcome s = (.ok a, (x.outcome s).2) := by
  rcases hx : x.outcome s with ⟨_ | a, t⟩
  · simp [hx, Except.isOk, Except.toBool] at h
  · exact ⟨a, rfl⟩

/-- The attempt does not fail in this state. -/
def Succeeds (x : Attempt σ α) (s : σ) : Prop := ∃ a t, x.outcome s = (.ok a, t)

section Succeeds

variable {x : Attempt σ α} {s : σ}

theorem Succeeds.pure (a : α) : Succeeds (pure a : Attempt σ α) s := ⟨a, s, rfl⟩

theorem Succeeds.bind {f : α → Attempt σ β} (hx : Succeeds x s)
    (hf : ∀ a t, x.outcome s = (.ok a, t) → Succeeds (f a) t) : Succeeds (x >>= f) s := by
  obtain ⟨a, t, ha⟩ := hx
  obtain ⟨b, u, hb⟩ := hf a t ha
  exact ⟨b, u, bind_eq_ok.mpr ⟨a, t, ha, hb⟩⟩

theorem Succeeds.within (hx : Succeeds x s) (c : Context) : Succeeds (x.within c) s := by
  obtain ⟨a, t, ha⟩ := hx
  exact ⟨a, t, within_eq_ok.mpr ha⟩

theorem Succeeds.orElseUndo (hx : Succeeds x s) (undo : Attempt σ Unit) :
    Succeeds (x.orElseUndo undo) s := by
  obtain ⟨a, t, ha⟩ := hx
  exact ⟨a, t, orElseUndo_eq_ok.mpr ha⟩

theorem Succeeds.ofBlock {z : Except BlockError α} {a : α} (h : z = .ok a) :
    Succeeds (Attempt.ofBlock z) s := ⟨a, s, ofBlock_eq_ok.mpr ⟨h, rfl⟩⟩

theorem Succeeds.ofCheck {z : Except ApplyMismatch α} {a : α} (h : z = .ok a) :
    Succeeds (Attempt.ofCheck z) s := ⟨a, s, ofCheck_eq_ok.mpr ⟨h, rfl⟩⟩

end Succeeds

/-- Every failure of the attempt is of a kind. -/
def FailsAs (P : Failure → Prop) (x : Attempt σ α) : Prop :=
  ∀ s t e, x.outcome s = (.error e, t) → P e

section FailsAs

variable {P : Failure → Prop} {x : Attempt σ α}

theorem FailsAs.pure (a : α) : FailsAs P (pure a : Attempt σ α) := by
  intro s t e h
  cases h

theorem FailsAs.within {c : Context} (h : ∀ e : Failure, P (e.within c)) :
    FailsAs P (x.within c) := by
  intro s t e he
  obtain ⟨e', -, rfl⟩ := within_eq_error.mp he
  exact h e'

theorem FailsAs.bind {f : α → Attempt σ β} (hx : FailsAs P x) (hf : ∀ a, FailsAs P (f a)) :
    FailsAs P (x >>= f) := by
  intro s t e h
  rcases bind_eq_error.mp h with h | ⟨a, u, -, h⟩
  · exact hx s t e h
  · exact hf a u t e h

end FailsAs

/-- The list has grown at its end, by nothing but what `P` says. -/
def Grows (P : α → Prop) (xs ys : List α) : Prop := ∃ added, ys = xs ++ added ∧ ∀ x ∈ added, P x

instance {P : α → Prop} : IsPreorder (List α) (Grows P) where
  refl xs := ⟨[], by simp, by simp⟩
  trans xs ys zs := by
    rintro ⟨added, rfl, hadded⟩ ⟨later, rfl, hlater⟩
    refine ⟨added ++ later, List.append_assoc _ _ _, fun x hx => ?_⟩
    rcases List.mem_append.mp hx with hx | hx
    · exact hadded x hx
    · exact hlater x hx

theorem Grows.single {P : α → Prop} {x : α} (h : P x) (xs : List α) : Grows P xs (xs ++ [x]) :=
  ⟨[x], rfl, by simpa using h⟩

/-- A relation on one part of the state. -/
def Along (part : σ → τ) (R : τ → τ → Prop) (s t : σ) : Prop := R (part s) (part t)

instance {part : σ → τ} {R : τ → τ → Prop} [IsPreorder τ R] : IsPreorder σ (Along part R) where
  refl s := refl (part s)
  trans _ _ _ h h' := IsTrans.trans (r := R) _ _ _ h h'

/-- Whatever comes of the attempt, the state after it is related to the state before it. -/
def Moves (R : σ → σ → Prop) (x : Attempt σ α) : Prop := ∀ s, R s (x.outcome s).2

section Moves

variable {R : σ → σ → Prop} {x : Attempt σ α}

theorem Moves.of_outcome (hx : Moves R x) {s t : σ} {r : Except Failure α}
    (h : x.outcome s = (r, t)) : R s t := by
  have hs := hx s
  rw [h] at hs
  exact hs

variable [IsPreorder σ R]

theorem Moves.pure (a : α) : Moves R (pure a : Attempt σ α) := fun s => refl s

theorem Moves.fail (c : Cause) : Moves R (fail c : Attempt σ α) := fun s => refl s

theorem Moves.bind {f : α → Attempt σ β} (hx : Moves R x) (hf : ∀ a, Moves R (f a)) :
    Moves R (x >>= f) := by
  intro s
  have hs := hx s
  rw [outcome_bind]
  rcases h : x.outcome s with ⟨_ | a, t⟩
  · simpa [h] using hs
  · rw [h] at hs
    exact IsTrans.trans _ _ _ hs (hf a t)

end Moves

/-- Two attempts that end alike where their states are related, and leave related states. -/
def Alike (R : σ → τ → Prop) (x : Attempt σ α) (y : Attempt τ α) : Prop :=
  ∀ s t, R s t → (x.outcome s).1 = (y.outcome t).1 ∧ R (x.outcome s).2 (y.outcome t).2

section Alike

variable {R : σ → τ → Prop} {x : Attempt σ α} {y : Attempt τ α}

theorem Alike.pure (a : α) : Alike R (pure a) (pure a) := fun _ _ h => ⟨rfl, h⟩

theorem Alike.fail (c : Cause) : Alike R (fail c : Attempt σ α) (Attempt.fail c) :=
  fun _ _ h => ⟨rfl, h⟩

theorem Alike.bind {f : α → Attempt σ β} {g : α → Attempt τ β} (hx : Alike R x y)
    (hf : ∀ a, Alike R (f a) (g a)) : Alike R (x >>= f) (y >>= g) := by
  intro s t hst
  obtain ⟨hend, hleft⟩ := hx s t hst
  rw [outcome_bind, outcome_bind]
  rcases hs : x.outcome s with ⟨r, s'⟩
  rcases ht : y.outcome t with ⟨r', t'⟩
  rw [hs, ht] at hend hleft
  obtain rfl : r = r' := hend
  cases r with
  | error e => exact ⟨rfl, hleft⟩
  | ok a => exact hf a s' t' hleft

theorem Alike.within (hxy : Alike R x y) (c : Context) : Alike R (x.within c) (y.within c) := by
  intro s t hst
  obtain ⟨hend, hleft⟩ := hxy s t hst
  rw [outcome_within, outcome_within, hend]
  exact ⟨rfl, hleft⟩

theorem Alike.orElseUndo {undo : Attempt σ Unit} {undo' : Attempt τ Unit} (hxy : Alike R x y)
    (hu : Alike R undo undo') : Alike R (x.orElseUndo undo) (y.orElseUndo undo') := by
  intro s t hst
  obtain ⟨hend, hleft⟩ := hxy s t hst
  rw [outcome_orElseUndo, outcome_orElseUndo]
  rcases hs : x.outcome s with ⟨r, s'⟩
  rcases ht : y.outcome t with ⟨r', t'⟩
  rw [hs, ht] at hend hleft
  obtain rfl : r = r' := hend
  cases r with
  | error e => exact ⟨rfl, (hu s' t' hleft).2⟩
  | ok a => exact ⟨rfl, hleft⟩

theorem Alike.ofBlock (z : Except BlockError α) :
    Alike R (Attempt.ofBlock z : Attempt σ α) (Attempt.ofBlock z) := by
  cases z with
  | ok a => exact Alike.pure a
  | error e => exact Alike.fail _

theorem Alike.ofCheck (z : Except ApplyMismatch α) :
    Alike R (Attempt.ofCheck z : Attempt σ α) (Attempt.ofCheck z) := by
  cases z with
  | ok a => exact Alike.pure a
  | error e => exact Alike.fail _

/-- A relation between before and after is kept where an attempt is like itself on the states that
one start leads to. -/
theorem moves_iff_alike {R : σ → σ → Prop} [IsPreorder σ R] {x : Attempt σ α} :
    Moves R x ↔ ∀ start, Alike (fun s t => s = t ∧ R start s) x x := by
  constructor
  · rintro hx start s _ ⟨rfl, hs⟩
    exact ⟨rfl, rfl, IsTrans.trans _ _ _ hs (hx s)⟩
  · intro hx s
    exact (hx s s s ⟨rfl, refl s⟩).2.2

end Alike

end Regroup.Attempt
