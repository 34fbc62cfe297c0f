import Mathlib
import Regroup.Proofs.MemoryWorld
import Regroup.Proofs.RowKeys

/-! Units of work side by side on one store. Each has a working copy of its own, which descends from
the tables that were committed when it began; a commit publishes it as it is. What one unit of work
writes, another one never sees, and the committed tables do not show it before. -/

namespace Regroup.Memory

open Attempt

/-- What a unit of work is asked for before it ends. -/
inductive Access where
  | edgeOwners
  | registryOwners
  | loadGroups
  | loadMemberships
  | loadEdges
  | upsertDefaultGroups (name : String) (rows : List GroupInsert)
  | refreshDefaultGroups (rows : List GroupRefresh)
  | applyEdgeUpdates (rows : List EdgeWrite)

namespace Access

abbrev Answer : Access → Type
  | .edgeOwners | .registryOwners => List Uid
  | .loadGroups => List Group
  | .loadMemberships => List Membership
  | .loadEdges => List Edge
  | .upsertDefaultGroups .. | .refreshDefaultGroups _ | .applyEdgeUpdates _ => Nat

def perform : (a : Access) → Attempt Work a.Answer
  | .edgeOwners => Work.edgeOwners
  | .registryOwners => Work.registryOwners
  | .loadGroups => Work.loadGroups
  | .loadMemberships => Work.loadMemberships
  | .loadEdges => Work.loadEdges
  | .upsertDefaultGroups name rows => Work.upsertDefaultGroups name rows
  | .refreshDefaultGroups rows => Work.refreshDefaultGroups rows
  | .applyEdgeUpdates rows => Work.applyEdgeUpdates rows

end Access

/-- What is done to a store and to the units of work on it, each of which has a name. -/
inductive Action where
  | begin (unit : String) (lockWait : Option Duration)
  | access (unit : String) (a : Access)
  | commit (unit : String)
  | rollback (unit : String)
  /-- From now on units of work begin with these. -/
  | rehearse (failAt : Option FailPoint) (interfereWith : Option EdgeId)

def Action.unit? : Action → Option String
  | .begin unit _ | .access unit _ | .commit unit | .rollback unit => some unit
  | .rehearse .. => none

theorem Work.runs_descendsFrom {α : Type} {x : Attempt Work α} {point : FailPoint}
    {f : Option EdgeId → Tables → Except Cause (α × Tables)} {origin : Tables}
    (hx : Work.Runs x point f)
    (hf : ∀ i t, t.DescendsFrom origin → ∀ r, f i t = .ok r → r.2.DescendsFrom origin) {w : Work}
    (hw : w.tables.DescendsFrom origin) : (x.outcome w).2.tables.DescendsFrom origin := by
  rw [hx w]
  by_cases hpoint : w.failAt = some point
  · rw [if_pos hpoint]
    exact hw
  · rw [if_neg hpoint]
    cases hstep : f w.interfereWith w.tables with
    | ok r => exact hf w.interfereWith w.tables hw r hstep
    | error cause => exact hw

theorem Access.perform_descendsFrom (a : Access) {w : Work} {origin : Tables}
    (hw : w.tables.DescendsFrom origin) :
    (a.perform.outcome w).2.tables.DescendsFrom origin := by
  cases a with
  | edgeOwners => exact hw
  | registryOwners => exact hw
  | loadGroups => exact hw
  | loadMemberships => exact hw
  | loadEdges =>
    refine Work.runs_descendsFrom Work.loadEdges_runs (fun _ t ht r hr => ?_) hw
    obtain rfl := Except.ok.inj hr
    exact ht
  | upsertDefaultGroups name rows =>
    refine Work.runs_descendsFrom (Work.upsertDefaultGroups_runs name rows)
      (fun _ t ht r hr => ?_) hw
    obtain ⟨-, rfl⟩ := upserting_eq_ok_iff.mp hr
    exact ht.upsertGroups name rows
  | refreshDefaultGroups rows =>
    refine Work.runs_descendsFrom (Work.refreshDefaultGroups_runs rows) (fun _ t ht r hr => ?_) hw
    obtain rfl := Except.ok.inj hr
    exact ht.refreshGroups rows
  | applyEdgeUpdates rows =>
    refine Work.runs_descendsFrom (Work.applyEdgeUpdates_runs rows) (fun i t ht r hr => ?_) hw
    obtain rfl := Except.ok.inj hr
    cases i with
    | none => exact ht.applyEdges rows
    | some id => exact (ht.stray id).applyEdges rows

namespace Sessions

def step (s : Sessions) : Action → Sessions
  | .begin unit lockWait => ((begin unit lockWait).outcome s).2
  | .access unit a => ((use unit a.perform).outcome s).2
  | .commit unit => ((commit unit).outcome s).2
  | .rollback unit => ((rollback unit).outcome s).2
  | .rehearse failAt interfereWith => { s with store := { s.store with failAt, interfereWith } }

def run (s : Sessions) (actions : List Action) : Sessions := actions.foldl step s

variable {s s' : Sessions} {unit : String}

theorem outcome_begin (s : Sessions) (unit : String) (lockWait : Option Duration) :
    (begin unit lockWait).outcome s = if s.store.failAt = some .begin
      then (.error (.ofCause (.rehearsed .begin)), { s with store := asked s.store lockWait })
      else (.ok (), ⟨asked s.store lockWait,
        s.works.insert unit ⟨s.store.tables, s.store.failAt, s.store.interfereWith⟩⟩) := by
  unfold begin
  rw [outcome_bind, outcome_zoom, Store.begin, outcome_modify_bind, outcome_get_bind,
    outcome_checkPoint_bind]
  by_cases hfail : s.store.failAt = some .begin
  · simp [hfail, asked]
  · simp only [hfail, if_false]
    rfl

theorem outcome_use {α : Type} (s : Sessions) (unit : String) (x : Attempt Work α) :
    (use unit x).outcome s = match s.works.get? unit with
      | some w => ((x.outcome w).1, { s with works := s.works.insert unit (x.outcome w).2 })
      | none => (.error (.ofCause (.noUnitOfWork unit)), s) := by
  unfold use find
  rw [outcome_bind, outcome_get_bind]
  cases s.works.get? unit <;> rfl

theorem outcome_finish (s : Sessions) (unit : String) (x : Work → Attempt Store Unit) :
    (finish unit x).outcome s = match s.works.get? unit with
      | some w => (((x w).outcome s.store).1, ⟨((x w).outcome s.store).2, s.works.erase unit⟩)
      | none => (.error (.ofCause (.noUnitOfWork unit)), s) := by
  unfold finish find
  rw [outcome_bind, outcome_get_bind]
  cases s.works.get? unit <;> rfl

theorem outcome_commit_store (st : Store) (w : Work) :
    (Store.commit w).outcome st = if w.failAt = some .commit
      then (.error (.ofCause (.rehearsed .commit)), st)
      else (.ok (), { st with tables := w.tables, commits := st.commits + 1 }) := by
  rw [Store.commit, outcome_checkPoint_bind]
  rfl

/-- The unit of work that an action is for, as the action leaves it. -/
def next (st : Store) (work : Option Work) : Action → Option Work
  | .begin _ _ => if st.failAt = some .begin then work
    else some ⟨st.tables, st.failAt, st.interfereWith⟩
  | .access _ a => work.map fun w => (a.perform.outcome w).2
  | .commit _ | .rollback _ => none
  | .rehearse .. => work

theorem works_finish (s : Sessions) (acting unit : String) (x : Work → Attempt Store Unit) :
    ((finish acting x).outcome s).2.works.get? unit =
      if acting = unit then none else s.works.get? unit := by
  rw [outcome_finish]
  by_cases hunit : acting = unit
  · subst hunit
    rw [if_pos rfl]
    cases hwork : s.works.get? acting with
    | none => exact hwork
    | some w => simp [Dictionary.get?_erase]
  · rw [if_neg hunit]
    cases s.works.get? acting with
    | none => rfl
    | some w => simp [Dictionary.get?_erase, Ne.symm hunit]

theorem works_step (s : Sessions) (a : Action) (unit : String) :
    (s.step a).works.get? unit =
      if a.unit? = some unit then next s.store (s.works.get? unit) a else s.works.get? unit := by
  cases a with
  | begin acting lockWait =>
    simp only [step, outcome_begin, Action.unit?, Option.some.injEq, next]
    by_cases hfail : s.store.failAt = some .begin
    · simp [hfail]
    · simp [hfail, Dictionary.get?_insert, eq_comm]
  | access acting a =>
    simp only [step, outcome_use, Action.unit?, Option.some.injEq, next]
    by_cases hunit : acting = unit
    · subst hunit
      rw [if_pos rfl]
      cases hwork : s.works.get? acting with
      | none => exact hwork
      | some w => simp [Dictionary.get?_insert]
    · rw [if_neg hunit]
      cases s.works.get? acting with
      | none => rfl
      | some w => simp [Dictionary.get?_insert, Ne.symm hunit]
  | commit acting =>
    simp only [Action.unit?, Option.some.injEq, next]
    exact works_finish s acting unit Store.commit
  | rollback acting =>
    simp only [Action.unit?, Option.some.injEq, next]
    exact works_finish s acting unit fun _ => Store.rollback
  | rehearse failAt interfereWith => rfl

/-- The actions of one unit of work among those of all. -/
def own (unit : String) (actions : List Action) : List Action :=
  actions.filter fun a => a.unit? = some unit

theorem works_run_own {actions : List Action} (hbegin : ∀ lockWait, .begin unit lockWait ∉ actions)
    (hsame : s.works.get? unit = s'.works.get? unit) :
    (s.run actions).works.get? unit = (s'.run (own unit actions)).works.get? unit := by
  induction actions generalizing s s' with
  | nil => exact hsame
  | cons a actions ih =>
    have hrest : ∀ lockWait, .begin unit lockWait ∉ actions :=
      fun lockWait hmem => hbegin lockWait (List.mem_cons_of_mem _ hmem)
    have hrun : s.run (a :: actions) = (s.step a).run actions := rfl
    rw [hrun]
    by_cases ha : a.unit? = some unit
    · have hown : own unit (a :: actions) = a :: own unit actions := by simp [own, ha]
      rw [hown]
      refine ih hrest ?_
      rw [works_step, works_step, hsame, if_pos ha, if_pos ha]
      -- of all actions of a unit of work only its beginning looks at the store
      cases a with
      | begin acting lockWait =>
        obtain rfl := Option.some.inj ha
        exact absurd List.mem_cons_self (hbegin lockWait)
      | access acting a => rfl
      | commit acting => rfl
      | rollback acting => rfl
      | rehearse failAt interfereWith => rfl
    · have hown : own unit (a :: actions) = own unit actions := by simp [own, ha]
      rw [hown]
      refine ih hrest ?_
      rw [works_step, if_neg ha]
      exact hsame

theorem answer_congr (hsame : s.works.get? unit = s'.works.get? unit) (a : Access) :
    ((use unit a.perform).outcome s).1 = ((use unit a.perform).outcome s').1 := by
  rw [outcome_use, outcome_use, hsame]
  cases s'.works.get? unit <;> rfl

/-- The committed tables after an action are the working copy of a unit of work whose commit
succeeds, and else what they were. -/
def Publishes (s : Sessions) (a : Action) : Prop :=
  (∃ unit w, a = .commit unit ∧ s.works.get? unit = some w ∧
    ((commit unit).outcome s).1 = .ok () ∧ (s.step a).store.tables = w.tables) ∨
  ((∀ unit, a = .commit unit → ((commit unit).outcome s).1 ≠ .ok ()) ∧
    (s.step a).store.tables = s.store.tables)

theorem Publishes.of_failed (hfails : ((commit unit).outcome s).1 ≠ .ok ())
    (htables : (s.step (.commit unit)).store.tables = s.store.tables) :
    s.Publishes (.commit unit) := by
  refine .inr ⟨fun other hother => ?_, htables⟩
  obtain rfl := Action.commit.inj hother
  exact hfails

theorem publishes (s : Sessions) (a : Action) : s.Publishes a := by
  cases a with
  | begin unit lockWait =>
    refine .inr ⟨by simp, ?_⟩
    simp only [step, outcome_begin]
    by_cases hfail : s.store.failAt = some .begin
    · rw [if_pos hfail]
      rfl
    · rw [if_neg hfail]
      rfl
  | access unit a =>
    refine .inr ⟨by simp, ?_⟩
    simp only [step, outcome_use]
    cases s.works.get? unit <;> rfl
  | commit unit =>
    have hcommit := outcome_finish s unit Store.commit
    cases hwork : s.works.get? unit with
    | none =>
      simp only [hwork] at hcommit
      exact .of_failed (by simp [commit, hcommit]) (by simp only [step, commit, hcommit])
    | some w =>
      simp only [hwork, outcome_commit_store] at hcommit
      by_cases hfail : w.failAt = some .commit
      · simp only [hfail, if_true] at hcommit
        exact .of_failed (by simp [commit, hcommit]) (by simp only [step, commit, hcommit])
      · simp only [hfail, if_false] at hcommit
        exact .inl ⟨unit, w, rfl, hwork, by simp only [commit, hcommit],
          by simp only [step, commit, hcommit]⟩
  | rollback unit =>
    refine .inr ⟨by simp, ?_⟩
    simp only [step, rollback, outcome_finish]
    cases s.works.get? unit <;> rfl
  | rehearse failAt interfereWith => exact .inr ⟨by simp, rfl⟩

end Sessions

/-- Sessions, and for each unit of work the tables that were committed when it began. -/
structure Chronicle where
  sessions : Sessions
  origins : String → Tables

namespace Chronicle

def start (st : Store) : Chronicle := ⟨⟨st, .empty⟩, fun _ => st.tables⟩

def step (h : Chronicle) (a : Action) : Chronicle where
  sessions := h.sessions.step a
  origins := match a with
    | .begin unit lockWait =>
      match ((Sessions.begin unit lockWait).outcome h.sessions).1 with
      | .ok _ => Function.update h.origins unit h.sessions.store.tables
      | .error _ => h.origins
    | _ => h.origins

def run (h : Chronicle) (actions : List Action) : Chronicle := actions.foldl step h

structure Consistent (h : Chronicle) : Prop where
  committed : h.sessions.store.tables.Keyed
  copies : ∀ unit w, h.sessions.works.get? unit = some w →
    w.tables.DescendsFrom (h.origins unit)

variable {h : Chronicle}

theorem origins_step {a : Action} {unit : String} (ha : a.unit? ≠ some unit) :
    (h.step a).origins unit = h.origins unit := by
  cases a with
  | begin acting lockWait =>
    have hne : unit ≠ acting := fun he => ha (by rw [he]; rfl)
    simp only [step]
    cases ((Sessions.begin acting lockWait).outcome h.sessions).1 with
    | error f => rfl
    | ok _ => exact Function.update_of_ne hne _ _
  | access acting a => rfl
  | commit acting => rfl
  | rollback acting => rfl
  | rehearse failAt interfereWith => rfl

theorem Consistent.step (hh : h.Consistent) (a : Action) : (h.step a).Consistent := by
  have hkeyed : (h.step a).sessions.store.tables.Keyed := by
    rcases h.sessions.publishes a with ⟨unit, w, -, hwork, -, htables⟩ | ⟨-, htables⟩
    · have hsource := (hh.copies unit w hwork).keyed
      rw [← htables] at hsource
      exact hsource
    · have hsource := hh.committed
      rw [← htables] at hsource
      exact hsource
  refine ⟨hkeyed, fun unit w hwork => ?_⟩
  have hnext : (h.step a).sessions.works.get? unit = _ := Sessions.works_step h.sessions a unit
  rw [hwork] at hnext
  by_cases ha : a.unit? = some unit
  · rw [if_pos ha] at hnext
    cases a with
    | begin acting lockWait =>
      obtain rfl := Option.some.inj ha
      simp only [Chronicle.step, Sessions.outcome_begin]
      simp only [Sessions.next] at hnext
      by_cases hfail : h.sessions.store.failAt = some .begin
      · simp only [hfail, if_true] at hnext ⊢
        exact hh.copies acting w hnext.symm
      · simp only [hfail, if_false] at hnext ⊢
        rw [Function.update_self, Option.some.inj hnext]
        exact hh.committed.descendsFrom
    | access acting a =>
      obtain ⟨before, hbefore, rfl⟩ := Option.map_eq_some_iff.mp hnext.symm
      exact a.perform_descendsFrom (hh.copies unit before hbefore)
    | commit acting => simp [Sessions.next] at hnext
    | rollback acting => simp [Sessions.next] at hnext
    | rehearse failAt interfereWith => simp [Action.unit?] at ha
  · rw [if_neg ha] at hnext
    rw [origins_step ha]
    exact hh.copies unit w hnext.symm

theorem Consistent.run (hh : h.Consistent) (actions : List Action) : (h.run actions).Consistent := by
  induction actions generalizing h with
  | nil => exact hh
  | cons a actions ih => exact ih (hh.step a)

theorem consistent_start {st : Store} (hkeyed : st.tables.Keyed) : (start st).Consistent :=
  ⟨hkeyed, fun unit w hwork => by simp [start] at hwork⟩

end Chronicle

/-- Whatever is done to a store whose rows are told apart and to the units of work on it, the
committed tables and all working copies keep their rows apart; a working copy descends from what was
committed at its beginning; only a commit that succeeds changes the committed tables, and it leaves
the working copy of its unit of work; no other unit of work is touched by an action; and the answers
a unit of work receives are those it would receive if it were alone. -/
theorem units_isolated {st : Store} (hkeyed : st.tables.Keyed) (actions : List Action) :
    let h := (Chronicle.start st).run actions
    h.Consistent ∧
    (∀ a, h.sessions.Publishes a) ∧
    (∀ a unit, a.unit? ≠ some unit →
      (h.sessions.step a).works.get? unit = h.sessions.works.get? unit) ∧
    ∀ unit later, (∀ lockWait, .begin unit lockWait ∉ later) → ∀ a : Access,
      ((Sessions.use unit a.perform).outcome (h.sessions.run later)).1 =
        ((Sessions.use unit a.perform).outcome (h.sessions.run (Sessions.own unit later))).1 := by
  intro h
  refine ⟨(Chronicle.consistent_start hkeyed).run actions, h.sessions.publishes,
    fun a unit ha => ?_, fun unit later hbegin a => ?_⟩
  · rw [Sessions.works_step, if_neg ha]
  · have hsame := Sessions.works_run_own (s := h.sessions) hbegin rfl
    exact Sessions.answer_congr hsame a

def teeming : Store := .ofTables
  { users := ["ada", "eve"]
    groups := [.new 1 "ada" "work" false, (Group.new 2 "ada" "old" true).deleted]
    memberships := [.new 1 "ada" "bob"]
    edges := [.new 1 "ada" "bob", .new 2 "ada" "eve"] }

/-- Three units of work, of which one commits and another is going to fail when it does. -/
def crowd : List Action :=
  [.begin "one" none, .begin "two" none,
    .access "one" (.upsertDefaultGroups "Friends" [⟨"eve", 5⟩, ⟨"eve", 6⟩]),
    .rehearse (some .commit) (some 2), .begin "three" none,
    .access "three" (.applyEdgeUpdates [⟨1, 0, 9, 1⟩, ⟨8, 0, 9, 2⟩]), .commit "one"]

def crowded : Chronicle := (Chronicle.start teeming).run crowd

theorem units_isolated_crowd : teeming.tables.Keyed ∧ crowded.sessions.store.tables.Keyed ∧
    crowded.sessions.store.tables.groups.map (fun g => (g.id, g.version)) =
      [(1, none), (2, none), (3, some 6)] ∧
    (∃ w, crowded.sessions.works.get? "three" = some w ∧
      w.tables.edges.map Edge.groupId = [some 9, some 1000000] ∧
      w.tables.DescendsFrom (crowded.origins "three")) ∧
    (crowded.sessions.step (.commit "three")).store.tables = crowded.sessions.store.tables ∧
    ((Sessions.use "two" Access.loadGroups.perform).outcome
      (crowded.sessions.run [.commit "three", .access "two" (.refreshDefaultGroups [⟨2, 7⟩])])).1 =
    ((Sessions.use "two" Access.loadGroups.perform).outcome
      (crowded.sessions.run [.access "two" (.refreshDefaultGroups [⟨2, 7⟩])])).1 := by
  have hkeyed : teeming.tables.Keyed := ⟨by decide, by decide, by decide⟩
  obtain ⟨hconsistent, hpublishes, -, halone⟩ := units_isolated hkeyed crowd
  obtain ⟨w, hwork⟩ : ∃ w, crowded.sessions.works.get? "three" = some w :=
    Option.isSome_iff_exists.mp (by cbv)
  have hedges : (crowded.sessions.works.get? "three").map (·.tables.edges.map Edge.groupId) =
      some [some 9, some 1000000] := by cbv
  rw [hwork] at hedges
  refine ⟨hkeyed, hconsistent.committed, by cbv,
    ⟨w, hwork, Option.some.inj hedges, hconsistent.copies "three" w hwork⟩, ?_, ?_⟩
  · rcases hpublishes (.commit "three") with ⟨unit, w', hcommit, -, hok, -⟩ | ⟨-, htables⟩
    · obtain rfl := Action.commit.inj hcommit
      have hrefused : ((Sessions.commit "three").outcome crowded.sessions).1.isOk = false := by cbv
      have hgranted : ((Sessions.commit "three").outcome crowded.sessions).1 = .ok () := hok
      rw [hgranted] at hrefused
      exact absurd hrefused (by decide)
    · exact htables
  · exact halone "two" [.commit "three", .access "two" (.refreshDefaultGroups [⟨2, 7⟩])]
      (by simp) .loadGroups

end Regroup.Memory
