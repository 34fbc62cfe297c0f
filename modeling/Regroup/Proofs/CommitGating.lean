import Regroup.Memory.Service
import Regroup.Proofs.Conversation
import Regroup.Proofs.Numbering

/-! When a pass commits, and how it fails. In its conversation every write is drawn right before it
is made, and is refused if it touches another number of rows; so the work comes through just when
nothing has failed, and the frame around it commits once, then, and never else. -/

namespace Regroup

variable {σ α : Type} {o : Options}

def Request.write? : Request → Option RowWrite
  | .upsertDefaultGroups name rows => some (.inserts name rows)
  | .refreshDefaultGroups rows => some (.refreshes rows)
  | .applyEdgeUpdates rows => some (.moves rows)
  | _ => none

def Call.touched? : Call → Option (RowWrite × Nat)
  | ⟨.upsertDefaultGroups name rows, .ok n⟩ => some (.inserts name rows, n)
  | ⟨.refreshDefaultGroups rows, .ok n⟩ => some (.refreshes rows, n)
  | ⟨.applyEdgeUpdates rows, .ok n⟩ => some (.moves rows, n)
  | _ => none

def Call.Fits (c : Call) : Prop := ∀ w n, c.touched? = some (w, n) → w.size = n

/-- A write is asked for right after the reservation of its versions. -/
def Request.DrawnBy (q : Request) (c : Call) : Prop :=
  ∀ w, q.write? = some w → ∃ counter last block,
    c = ⟨.reserve counter w.size, .ok last⟩ ∧
      VersionBlock.endingAt last w.size = .ok block ∧ w.versions = block.values

namespace Talk

/-- What is said after a call is in order: writes are drawn, and refused just when they do not fit.
-/
def Sound : Talk → Call → Prop
  | done, c => c.Fits
  | refuse (.block _), c => c.Fits
  | refuse (.mismatch m), c => ∃ w n, c.touched? = some (w, n) ∧ w.size ≠ n ∧
      m = ⟨w.target, w.size, n⟩
  | refuse _, _ => False
  | ask q next, c => c.Fits ∧ q.isInner = true ∧ q.DrawnBy c ∧ ∀ a, (next a).Sound ⟨q, .ok a⟩

theorem accepting_sound {y : Except BlockError α} {k : α → Talk} {c : Call} (hc : c.Fits)
    (hk : ∀ a, y = .ok a → (k a).Sound c) : (accepting y k).Sound c := by
  cases y with
  | ok a => exact hk a rfl
  | error e => exact hc

theorem checking_sound {w : RowWrite} {t : Talk} {n : Nat} {c : Call}
    (hc : c.touched? = some (w, n)) (ht : ∀ d, d.Fits → t.Sound d) :
    (checking w t n).Sound c := by
  unfold checking ApplyMismatch.check
  by_cases hn : w.size = n
  · have hfits : c.Fits := by
      intro w' n' h
      rw [hc] at h
      cases h
      exact hn
    simpa [hn] using ht c hfits
  · simpa [hn] using ⟨w, n, hc, hn, rfl⟩

theorem writing_sound {w : RowWrite} {t : Talk} {counter : String} {last : Int}
    {block : VersionBlock} (hblock : VersionBlock.endingAt last w.size = .ok block)
    (hversions : w.versions = block.values) (ht : ∀ d, d.Fits → t.Sound d) :
    (writing w t).Sound ⟨.reserve counter w.size, .ok last⟩ := by
  have hfits : Call.Fits ⟨.reserve counter w.size, .ok last⟩ := nofun
  cases w <;> exact ⟨hfits, rfl, fun _ h => by cases h; exact ⟨_, _, _, rfl, hblock, hversions⟩,
    fun n => checking_sound rfl ht⟩

theorem numbering_sound {counter : String} {n : Nat}
    {rows : VersionBlock → Except BlockError RowWrite} {t : Talk} {c : Call} (hc : c.Fits)
    (hrows : ∀ block w, rows block = .ok w → w.versions = block.values)
    (ht : ∀ d, d.Fits → t.Sound d) : (numbering counter n rows t).Sound c := by
  unfold numbering reserving
  by_cases hn : n = 0
  · simpa [hn] using ht c hc
  · simp only [hn, if_false]
    refine ⟨hc, rfl, nofun, fun last => ?_⟩
    refine accepting_sound nofun fun block hblock => accepting_sound nofun fun w hw => ?_
    have hversions := hrows block w hw
    have hlen : n = w.size := by
      obtain ⟨-, rfl⟩ := VersionBlock.endingAt_eq_ok hblock
      rw [← w.length_versions, hversions, VersionBlock.length_values]
    subst hlen
    exact writing_sound hblock hversions ht

theorem reading_sound {plan : ProvisionPlan} {c : Call} (hc : c.Fits) :
    (reading o plan (moving o)).Sound c := by
  refine ⟨hc, rfl, nofun, fun groups => ⟨nofun, rfl, nofun, fun memberships => ?_⟩⟩
  refine ⟨nofun, rfl, nofun, fun edges => ?_⟩
  unfold moving
  by_cases hdry : o.dryRun = true
  · simp only [hdry, if_true]
    exact nofun
  · simp only [hdry]
    refine numbering_sound nofun (fun block w hw => ?_) fun _ => id
    obtain ⟨rows, hrows, rfl⟩ := exists_of_map_eq_ok hw
    exact ChangeSet.versions_writes hrows

theorem provisioning_sound {candidates : List Uid} {k : ProvisionPlan → Talk} {c : Call}
    (hc : c.Fits) (hk : ∀ plan d, d.Fits → (k plan).Sound d) :
    (provisioning o candidates k).Sound c := by
  refine ⟨hc, rfl, nofun, fun groups => ?_⟩
  by_cases hdry : o.dryRun = true
  · simp only [hdry, if_true]
    exact hk _ _ nofun
  · simp only [hdry]
    refine numbering_sound nofun (fun block w hw => ?_) fun _ hd =>
      numbering_sound hd (fun block w hw => ?_) fun _ hd => hk _ _ hd
    · obtain ⟨rows, hrows, rfl⟩ := exists_of_map_eq_ok hw
      exact ProvisionPlan.versions_inserts hrows
    · obtain ⟨rows, hrows, rfl⟩ := exists_of_map_eq_ok hw
      exact ProvisionPlan.versions_refreshes hrows

/-- The whole conversation is in order, whatever is answered. -/
theorem work_sound {c : Call} (hc : c.Fits) : (work o).Sound c := by
  have hprovisioning : ∀ candidates d, d.Fits →
      (provisioning o candidates fun plan => reading o plan (moving o)).Sound d :=
    fun _ _ hd => provisioning_sound hd fun _ _ => reading_sound
  unfold work
  cases o.provisioning with
  | skip => exact reading_sound hc
  | seed strategy =>
    cases strategy with
    | edges => exact ⟨hc, rfl, nofun, fun owners => hprovisioning _ _ nofun⟩
    | registry => exact ⟨hc, rfl, nofun, fun users => hprovisioning _ _ nofun⟩
    | union =>
      refine ⟨hc, rfl, nofun, fun owners => ⟨nofun, rfl, nofun, fun users => ?_⟩⟩
      exact hprovisioning _ _ nofun

variable {t t' : Talk} {c : Call} {calls : List Call}

theorem Reaches.exists_sound (h : Reaches t calls t') (hc : t.Sound c) :
    ∃ d ∈ c :: calls, t'.Sound d := by
  induction h generalizing c with
  | here => exact ⟨c, List.mem_cons_self, hc⟩
  | step a _ ih =>
    obtain ⟨d, hd, hsound⟩ := ih (hc.2.2.2 a)
    exact ⟨d, List.mem_cons_of_mem c hd, hsound⟩

theorem Reaches.fits (h : Reaches t calls t') (hc : t.Sound c) (ht' : ∀ d, t'.Sound d → d.Fits) :
    ∀ d ∈ c :: calls, d.Fits := by
  induction h generalizing c with
  | here => simpa using ht' c hc
  | step a _ ih =>
    rw [List.forall_mem_cons]
    exact ⟨hc.1, ih (hc.2.2.2 a) ht'⟩

theorem Reaches.inner (h : Reaches t calls t') (hc : t.Sound c) :
    ∀ d ∈ calls, d.request.isInner = true ∧ d.succeeded = true := by
  induction h generalizing c with
  | here => simp
  | step a _ ih =>
    rw [List.forall_mem_cons]
    exact ⟨⟨hc.2.1, rfl⟩, ih (hc.2.2.2 a)⟩

theorem Reaches.drawn (h : Reaches t calls t') (hc : t.Sound c) {rest : List Call}
    (hrest : ∀ d, t'.Sound d → (d :: rest).IsChain fun c d => d.request.DrawnBy c) :
    (c :: (calls ++ rest)).IsChain fun c d => d.request.DrawnBy c := by
  induction h generalizing c with
  | here => exact hrest c hc
  | step a _ ih => exact List.isChain_cons_cons.mpr ⟨hc.2.2.1, ih (hc.2.2.2 a) hrest⟩

theorem Reaches.comparable {u u' : Talk} {calls' rest rest' : List Call} (h : Reaches t calls u)
    (h' : Reaches t calls' u') (hcalls : calls ++ rest = calls' ++ rest') :
    (∃ mid, calls' = calls ++ mid ∧ Reaches u mid u') ∨
      ∃ mid, calls = calls' ++ mid ∧ Reaches u' mid u := by
  induction h generalizing calls' with
  | here => exact .inl ⟨calls', rfl, h'⟩
  | step a h ih =>
    cases h' with
    | here => exact .inr ⟨_, rfl, .step a h⟩
    | step a' h' =>
      obtain ⟨hhead, htail⟩ := List.cons.inj hcalls
      obtain rfl : a = a' := by simpa using hhead
      rcases ih h' htail with ⟨mid, rfl, hmid⟩ | ⟨mid, rfl, hmid⟩
      · exact .inl ⟨mid, rfl, hmid⟩
      · exact .inr ⟨mid, rfl, hmid⟩

end Talk

open Talk

abbrev Options.Work (o : Options) : List Call → Except Failure Report → Prop :=
  Goes (work o) fun _ => done

def Options.Refuses (o : Options) (c : Cause) (said : List Call) : Prop :=
  ∃ inner, said = o.begun :: inner ∧ Reaches (work o) inner (refuse c)

structure Gated (o : Options) (calls : List Call) (result : Except Failure Report) : Prop where
  once : calls.countP (fun c => c.request == .commit) ≤ 1
  gate : (∃ c ∈ calls, c.request = .commit) ↔ o.dryRun = false ∧
    (∀ c ∈ calls, c.request ≠ .commit → c.succeeded = true) ∧
    (∀ said e, said <+: calls → ¬ o.Refuses (.block e) said) ∧ ∀ c ∈ calls, c.Fits
  drawn : calls.IsChain fun c d => d.request.DrawnBy c
  /-- After the first call that fails there is at most a roll-back. -/
  failsFast : ∀ before after q e, calls = before ++ ⟨q, .error e⟩ :: after →
    (∀ c ∈ before, c.succeeded = true) →
    (if q.isInner then ∃ a, after = [⟨.rollback, a⟩] else after = []) ∧
    ∃ f, result = .error f ∧ ((∀ c, ¬ o.Refuses c before) → f.Wraps e)
  /-- After an answer that cannot be used there is just a roll-back. -/
  refuses : ∀ said rest c, calls = said ++ rest → o.Refuses c said →
    ∃ a f, rest = [⟨.rollback, a⟩] ∧ result = .error f ∧ f.cause = c

/-- The first call that fails stands at one place. -/
theorem first_failed {xs ys before after : List Call} {y z : Call}
    (hxs : ∀ c ∈ xs, c.succeeded = true) (hy : y.succeeded = false)
    (hbefore : ∀ c ∈ before, c.succeeded = true) (hz : z.succeeded = false)
    (h : xs ++ y :: ys = before ++ z :: after) : xs = before ∧ y = z ∧ ys = after := by
  induction xs generalizing before with
  | nil =>
    cases before with
    | nil =>
      obtain ⟨rfl, rfl⟩ := List.cons.inj h
      exact ⟨rfl, rfl, rfl⟩
    | cons b before =>
      obtain ⟨rfl, -⟩ := List.cons.inj h
      have hb := hbefore y List.mem_cons_self
      rw [hy] at hb
      cases hb
  | cons x xs ih =>
    rw [List.forall_mem_cons] at hxs
    cases before with
    | nil =>
      obtain ⟨rfl, -⟩ := List.cons.inj h
      rw [hz] at hxs
      cases hxs.1
    | cons b before =>
      rw [List.forall_mem_cons] at hbefore
      obtain ⟨rfl, htail⟩ := List.cons.inj h
      obtain ⟨rfl, hyz, hys⟩ := ih hxs.2 hbefore.2 htail
      exact ⟨rfl, hyz, hys⟩

section Frame

variable {inner : List Call} {last : Call}

theorem exists_commit_iff (hinner : ∀ c ∈ inner, c.request.isInner = true) :
    (∃ c ∈ o.begun :: (inner ++ [last]), c.request = .commit) ↔
      last.request = .commit := by
  constructor
  · rintro ⟨c, hc, hcommit⟩
    simp only [List.mem_cons, List.mem_append, List.not_mem_nil, or_false] at hc
    rcases hc with rfl | hc | rfl
    · cases hcommit
    · have hc := hinner c hc
      rw [hcommit] at hc
      cases hc
    · exact hcommit
  · intro hcommit
    exact ⟨last, by simp, hcommit⟩

theorem countP_commit_le (hinner : ∀ c ∈ inner, c.request.isInner = true) :
    (o.begun :: (inner ++ [last])).countP
      (fun c => c.request == .commit) ≤ 1 := by
  have hnone : inner.countP (fun c => c.request == .commit) = 0 := by
    refine List.countP_eq_zero.mpr fun c hc hcommit => ?_
    have hin := hinner c hc
    rw [beq_iff_eq.mp hcommit] at hin
    cases hin
  rw [List.countP_cons_of_neg (by simp), List.countP_append, hnone, Nat.zero_add]
  exact List.countP_le_length

theorem forall_succeeded (hinner : ∀ c ∈ inner, c.request.isInner = true ∧ c.succeeded = true) :
    ∀ c ∈ o.begun :: inner, c.succeeded = true := by
  rw [List.forall_mem_cons]
  exact ⟨rfl, fun c hc => (hinner c hc).2⟩

theorem forall_succeeded_ended {q : Request} {a : q.Reply}
    (hinner : ∀ c ∈ inner, c.request.isInner = true ∧ c.succeeded = true) :
    ∀ c ∈ o.begun :: (inner ++ [⟨q, .ok a⟩]), c.succeeded = true := by
  rw [← List.cons_append, List.forall_mem_append]
  exact ⟨forall_succeeded hinner, List.forall_mem_singleton.mpr rfl⟩

theorem work_begun : (work o).Sound o.begun := work_sound nofun

/-- Where the pass refuses to go on the conversation stops. -/
theorem Options.Refuses.stops {t : Talk} {said rest rest' : List Call} {c : Cause}
    (h : o.Refuses c said) (hcalls : o.begun :: (inner ++ rest') = said ++ rest)
    (ht : Reaches (work o) inner t) :
    (t = refuse c ∧ said = o.begun :: inner ∧ rest = rest') ∨
      ∃ q next a later, t = ask q next ∧ rest' = ⟨q, .ok a⟩ :: later := by
  obtain ⟨stopped, rfl, hstop⟩ := h
  have htail : stopped ++ rest = inner ++ rest' := (List.cons.inj hcalls).2.symm
  rcases hstop.comparable ht htail with ⟨mid, rfl, hmid⟩ | ⟨mid, rfl, hmid⟩
  · cases hmid
    exact .inl ⟨rfl, by simp, by simpa using htail⟩
  · rw [List.append_assoc, List.append_cancel_left_eq] at htail
    cases hmid with
    | here => exact .inl ⟨rfl, by simp, htail⟩
    | step a _ => exact .inr ⟨_, _, a, _, rfl, htail.symm⟩

theorem gated_unbegun (e : Failure) :
    Gated o [⟨.begin o.lockWait, .error e⟩] (.error (e.within (.phase .begin))) where
  once := List.countP_le_length
  gate := by simp [Call.succeeded, Except.isOk, Except.toBool]
  drawn := .singleton _
  failsFast before after q e' h hbefore := by
    have hnone : ∀ c ∈ ([] : List Call), c.succeeded = true := by simp
    obtain ⟨rfl, hcall, rfl⟩ := first_failed hnone rfl hbefore rfl h
    cases hcall
    exact ⟨rfl, _, rfl, fun _ => .within ⟨rfl, List.suffix_rfl⟩ _⟩
  refuses said rest c h hsaid := by
    obtain ⟨inner, rfl, -⟩ := hsaid
    simp at h

theorem gated_done {q : Request} {a : Except Failure q.Reply} {result : Except Failure Report}
    (h : Reaches (work o) inner done)
    (hq : q = .rollback ∧ o.dryRun = true ∨ q = .commit ∧ o.dryRun = false)
    (hresult : ∀ e, a = .error e → ∃ f, result = .error f ∧ f.Wraps e) :
    Gated o (o.begun :: (inner ++ [⟨q, a⟩])) result := by
  have hinner := h.inner work_begun
  have hasked : ∀ c ∈ inner, c.request.isInner = true := fun c hc => (hinner c hc).1
  have hwrite : q.isInner = false ∧ q.write? = none := by
    rcases hq with ⟨rfl, -⟩ | ⟨rfl, -⟩ <;> exact ⟨rfl, rfl⟩
  have hgoesOn : ∀ said rest c, o.begun :: (inner ++ [⟨q, a⟩]) = said ++ rest →
      ¬ o.Refuses c said := by
    intro said rest c hcalls hsaid
    rcases hsaid.stops hcalls h with ⟨ht, -⟩ | ⟨_, _, _, _, ht, -⟩ <;> cases ht
  have hfits : ∀ c ∈ o.begun :: inner, c.Fits := h.fits work_begun fun _ => id
  refine ⟨countP_commit_le hasked, ?gate, ?drawn, ?failsFast, ?refuses⟩
  case gate =>
    rw [exists_commit_iff hasked]
    constructor
    · rintro rfl
      have hfull : o.dryRun = false := by simpa using hq
      refine ⟨hfull, ?_, ?_, ?_⟩
      · intro c hc hne
        rcases List.mem_append.mp (List.cons_append ▸ hc) with hc | hc
        · exact forall_succeeded hinner c hc
        · exact absurd (congrArg Call.request (List.mem_singleton.mp hc)) hne
      · rintro said e ⟨rest, hcalls⟩
        exact hgoesOn said rest _ hcalls.symm
      · intro c hc
        rcases List.mem_append.mp (List.cons_append ▸ hc) with hc | hc
        · exact hfits c hc
        · rw [List.mem_singleton.mp hc]
          exact nofun
    · rintro ⟨hfull, -⟩
      simpa [hfull] using hq
  case drawn =>
    refine h.drawn work_begun fun d _ => .cons_cons ?_ (.singleton _)
    intro w hw
    rw [hwrite.2] at hw
    cases hw
  case failsFast =>
    intro before after q' e hcalls hbefore
    cases a with
    | ok a =>
      have hfailed := forall_succeeded_ended hinner ⟨q', .error e⟩ (by rw [hcalls]; simp)
      cases hfailed
    | error e₀ =>
      obtain ⟨rfl, hcall, rfl⟩ := first_failed (forall_succeeded hinner) rfl hbefore rfl hcalls
      cases hcall
      obtain ⟨f, hf, hwraps⟩ := hresult e rfl
      exact ⟨by simp [hwrite.1], f, hf, fun _ => hwraps⟩
  case refuses =>
    intro said rest c hcalls hsaid
    exact absurd hsaid (hgoesOn said rest c hcalls)

theorem gated_failed {q : Request} {next : q.Reply → Talk} {e f : Failure}
    (h : Reaches (work o) inner (ask q next)) (hf : f.Wraps e) (a : Except Failure Unit) :
    Gated o (o.begun :: ((inner ++ [⟨q, .error e⟩]) ++ [⟨.rollback, a⟩])) (.error f) := by
  have hinner := h.inner work_begun
  obtain ⟨d, -, -, hq, -⟩ := h.exists_sound work_begun
  have hasked : ∀ c ∈ inner ++ [⟨q, .error e⟩], c.request.isInner = true := by
    intro c hc
    rcases List.mem_append.mp hc with hc | hc
    · exact (hinner c hc).1
    · rw [List.mem_singleton.mp hc]
      exact hq
  refine ⟨countP_commit_le hasked, ?gate, ?drawn, ?failsFast, ?refuses⟩
  case gate =>
    rw [exists_commit_iff hasked]
    refine ⟨nofun, fun hgate => ?_⟩
    have hne : q ≠ .commit := by
      rintro rfl
      cases hq
    have hfailed := hgate.2.1 ⟨q, .error e⟩ (by simp) hne
    cases hfailed
  case drawn =>
    rw [List.append_assoc]
    refine h.drawn work_begun fun d hd => .cons_cons hd.2.2.1 (.cons_cons ?_ (.singleton _))
    exact nofun
  case failsFast =>
    intro before after q' e' hcalls hbefore
    rw [List.append_assoc] at hcalls
    obtain ⟨rfl, hcall, rfl⟩ := first_failed (forall_succeeded hinner) rfl hbefore rfl hcalls
    cases hcall
    exact ⟨by simp [hq], f, rfl, fun _ => hf⟩
  case refuses =>
    intro said rest c hcalls hsaid
    rw [List.append_assoc] at hcalls
    rcases hsaid.stops hcalls h with ⟨ht, -⟩ | ⟨_, _, _, _, ht, hlater⟩
    · cases ht
    · cases ht
      simp at hlater

theorem gated_refused {c : Cause} {f : Failure} (h : Reaches (work o) inner (refuse c))
    (hf : f.cause = c) (a : Except Failure Unit) :
    Gated o (o.begun :: (inner ++ [⟨.rollback, a⟩])) (.error f) := by
  have hinner := h.inner work_begun
  have hasked : ∀ c ∈ inner, c.request.isInner = true := fun c hc => (hinner c hc).1
  have hrefuses : o.Refuses c (o.begun :: inner) := ⟨inner, rfl, h⟩
  refine ⟨countP_commit_le hasked, ?gate, ?drawn, ?failsFast, ?refuses⟩
  case gate =>
    rw [exists_commit_iff hasked]
    refine ⟨nofun, fun ⟨_, _, haccepted, hfits⟩ => ?_⟩
    obtain ⟨d, hd, hsound⟩ := h.exists_sound work_begun
    -- a pass refuses a block, or what a write touched, and nothing else
    cases c with
    | block e => exact absurd hrefuses (haccepted _ e ⟨[⟨.rollback, a⟩], rfl⟩)
    | mismatch m =>
      obtain ⟨w, n, htouched, hne, -⟩ := hsound
      have hd : d ∈ o.begun :: (inner ++ [⟨.rollback, a⟩]) := List.mem_append_left _ hd
      exact absurd (hfits d hd w n htouched) hne
    | _ => cases hsound
  case drawn =>
    refine h.drawn work_begun fun d _ => .cons_cons ?_ (.singleton _)
    exact nofun
  case failsFast =>
    intro before after q e hcalls hbefore
    cases a with
    | ok a =>
      have hfailed := forall_succeeded_ended hinner ⟨q, .error e⟩ (by rw [hcalls]; simp)
      cases hfailed
    | error e₀ =>
      obtain ⟨rfl, hcall, rfl⟩ := first_failed (forall_succeeded hinner) rfl hbefore rfl hcalls
      cases hcall
      exact ⟨rfl, f, rfl, fun hno => absurd hrefuses (hno c)⟩
  case refuses =>
    intro said rest c' hcalls hsaid
    rcases hsaid.stops hcalls h with ⟨ht, -, rfl⟩ | ⟨_, _, _, _, ht, -⟩
    · cases ht
      exact ⟨a, f, rfl, rfl, hf⟩
    · cases ht

end Frame

theorem Framed.gated {begun : Except Failure Unit} {calls : List Call}
    {result : Except Failure Report} (h : Framed o o.Work begun calls result) :
    Gated o calls result := by
  cases h with
  | unbegun e => exact gated_unbegun e
  | undone hwork a =>
    cases hwork with
    | refused h hf => exact gated_refused h hf a
    | failed h hf => exact gated_failed h hf a
  | rolledBack hdry hwork _ => exact gated_done hwork (.inl ⟨rfl, hdry⟩) nofun
  | stuck hdry hwork e =>
    refine gated_done hwork (.inl ⟨rfl, hdry⟩) fun e' he => ?_
    cases he
    exact ⟨_, rfl, .within ⟨rfl, List.suffix_rfl⟩ _⟩
  | committed hfull hwork _ => exact gated_done hwork (.inr ⟨rfl, hfull⟩) nofun
  | uncommitted hfull hwork e =>
    refine gated_done hwork (.inr ⟨rfl, hfull⟩) fun e' he => ?_
    cases he
    exact ⟨_, rfl, .within ⟨rfl, List.suffix_rfl⟩ _⟩

/-- Whatever a service answers, a pass calls it in the order of its conversation, inside one unit of
work. It commits at most once, and just when nothing has failed, every block was accepted and every
write touched the rows that it was given, each under a version reserved for it. -/
theorem reconcile_gated (s : Service σ) (o : Options) (stamp : Stamp) (x : σ) :
    Framed o o.Work ((s.perform (.begin o.lockWait)).outcome x).1 (transcript s o stamp x)
      ((reconcile s o stamp).outcome x).1 ∧
    Gated o (transcript s o stamp x) ((reconcile s o stamp).outcome x).1 := by
  have hframed : Framed o o.Work ((s.perform (.begin o.lockWait)).outcome x).1
      (transcript s o stamp x) ((reconcile s o stamp).outcome x).1 :=
    reconcile_framed (drive_follows _) x
  exact ⟨hframed, hframed.gated⟩

example : (transcript Memory.service {} default
    { store := .ofTables { edges := [.new 1 "ada" "bob"] } }).map (fun c => c.request.name) =
    ["begin", "edge_owners", "load_groups", "reserve", "upsert_default_groups", "load_groups",
      "load_memberships", "load_edges", "reserve", "apply_edge_updates", "commit"] := by
  cbv

end Regroup
