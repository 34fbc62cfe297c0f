import Mathlib
import Regroup.Proofs.ChangeSet
import Regroup.Proofs.Numbering
import Regroup.Proofs.TableWrites

/-! A change set that is written leaves nothing to write. Its writes find the edges that they are
for, each finds one, and the edges that come out are where the same snapshot puts them. -/

namespace Regroup

namespace EdgeWrite

theorem applyAll_eq_map (writes : List EdgeWrite) (edges : List Edge) :
    applyAll writes edges = edges.map (applied writes) := by
  induction writes generalizing edges with
  | nil => exact (List.map_id edges).symm
  | cons w writes ih =>
    have hstep : applyAll (w :: writes) edges =
        applyAll writes (edges.map fun e => if w.matchesEdge e then w.applyTo e else e) := rfl
    rw [hstep, ih, List.map_map]
    rfl

theorem bearing_applied (writes : List EdgeWrite) (e : Edge) :
    (applied writes e).bearing = e.bearing := by
  induction writes generalizing e with
  | nil => rfl
  | cons w writes ih =>
    have hstep : applied (w :: writes) e =
        applied writes (if w.matchesEdge e then w.applyTo e else e) := rfl
    rw [hstep, ih]
    split <;> rfl

theorem id_applied (writes : List EdgeWrite) (e : Edge) : (applied writes e).id = e.id := by
  have h := congrArg Edge.id (bearing_applied writes e)
  exact h

theorem map_bearing_applyAll (writes : List EdgeWrite) (edges : List Edge) :
    (applyAll writes edges).map Edge.bearing = edges.map Edge.bearing := by
  rw [applyAll_eq_map, List.map_map]
  exact List.map_congr_left fun e _ => bearing_applied writes e

theorem map_id_applyAll (writes : List EdgeWrite) (edges : List Edge) :
    (applyAll writes edges).map Edge.id = edges.map Edge.id := by
  rw [applyAll_eq_map, List.map_map]
  exact List.map_congr_left fun e _ => id_applied writes e

/-- By the time that a write is tried, its edge has taken none of the writes before it. -/
theorem applied_eq_self_of_later {pre post : List EdgeWrite} {w : EdgeWrite} {e : Edge}
    (hwrites : ((pre ++ w :: post).map edgeId).Nodup) (hid : e.id = w.edgeId) :
    applied pre e = e := by
  refine foldl_ite_eq_self fun r hr => Bool.eq_false_iff.mpr fun hmatch => ?_
  rw [List.map_append, List.nodup_append] at hwrites
  refine hwrites.2.2 r.edgeId (List.mem_map_of_mem hr) w.edgeId (by simp) ?_
  rw [edgeId_eq r e hmatch, hid]

end EdgeWrite

namespace ChangeSet

open EdgeWrite

theorem change?_applyTo {s : Snapshot} {e : Edge} {c : EdgeChange} (h : change? s e = some c)
    (v : Int) : change? s ((c.write v).applyTo e) = none := by
  obtain ⟨-, -, htarget, -⟩ := change?_eq_some h
  refine change?_eq_none_iff.mpr fun id hid => ?_
  -- the edge resolves as before, and now it is there
  have hsame : (resolution s ((c.write v).applyTo e)).groupId? = some c.target := htarget
  exact Option.some.inj (hsame.symm.trans hid)

section Written

variable {edges : List Edge} {s : Snapshot} {f : EdgeFilter} {e : Edge} {vs : List Int}

theorem exists_matchesEdge {w : EdgeWrite}
    (h : w ∈ List.zipWith EdgeChange.write (compute edges s f).changes vs) :
    ∃ e ∈ edges, w.matchesEdge e = true ∧ w.expected ≠ w.target := by
  obtain ⟨c, hc, v, -, rfl⟩ := mem_numbered h
  obtain ⟨e, he, -, hchange⟩ := mem_changes.mp hc
  obtain ⟨hid, hcurrent, -, hne⟩ := change?_eq_some hchange
  refine ⟨e, he, matchesEdge_iff.mpr ⟨hid.symm, hcurrent.symm⟩, ?_⟩
  rw [← hcurrent] at hne
  exact hne

variable {writes : List EdgeWrite} (hids : (edges.map Edge.id).Nodup)
  (hlength : (compute edges s f).changes.length = vs.length)
  (hwrites : writes = List.zipWith EdgeChange.write (compute edges s f).changes vs)

include hlength hwrites

theorem map_edgeId_eq :
    writes.map EdgeWrite.edgeId = (compute edges s f).changes.map EdgeChange.edgeId :=
  hwrites ▸ map_numbered_keys (fun _ _ => rfl) hlength

include hids

theorem edgeId_nodup : (writes.map EdgeWrite.edgeId).Nodup := by
  rw [map_edgeId_eq hlength hwrites]
  exact changes_nodup s f hids

theorem edgeId_ascending : writes.Pairwise fun w w' => w.edgeId < w'.edgeId := by
  have hle : writes.Pairwise fun w w' => w.edgeId ≤ w'.edgeId := by
    rw [← List.pairwise_map (R := (· ≤ ·)), map_edgeId_eq hlength hwrites, List.pairwise_map]
    exact changes_pairwise edges s f
  exact pairwise_lt_of_nodup hle (edgeId_nodup hids hlength hwrites)

/-- What the writes of a change set make of an edge: without a change it stays, and else it takes
the write that carries its change. -/
theorem applied_cases (he : e ∈ edges) :
    (f.accepts e = true → change? s e = none) ∧ (∀ w ∈ writes, w.edgeId ≠ e.id) ∧
        applied writes e = e ∨
      ∃ c v, f.accepts e = true ∧ change? s e = some c ∧ c.write v ∈ writes ∧
        applied writes e = (c.write v).applyTo e := by
  rw [applied_eq_find? (edgeId_nodup hids hlength hwrites)]
  cases hw : writes.find? fun r => r.edgeId = e.id with
  | none =>
    have hnone : ∀ w ∈ writes, w.edgeId ≠ e.id := by simpa using hw
    refine .inl ⟨fun haccept => Option.eq_none_iff_forall_ne_some.mpr fun c hc => ?_, hnone, rfl⟩
    have hmem : c.edgeId ∈ writes.map EdgeWrite.edgeId := by
      rw [map_edgeId_eq hlength hwrites]
      exact List.mem_map_of_mem (mem_changes.mpr ⟨e, he, haccept, hc⟩)
    obtain ⟨r, hr, hid⟩ := List.mem_map.mp hmem
    exact hnone r hr (hid.trans (change?_eq_some hc).1)
  | some w =>
    -- the write of an edge carries the change that was found for it
    have hmem := List.mem_of_find?_eq_some hw
    have hsame : w.edgeId = e.id := by simpa using List.find?_some hw
    obtain ⟨c, hc, v, -, rfl⟩ := mem_numbered (hwrites ▸ hmem)
    obtain ⟨e', he', haccept, hchange⟩ := mem_changes.mp hc
    obtain ⟨hid, hcurrent, -, -⟩ := change?_eq_some hchange
    obtain rfl : e' = e := List.inj_on_of_nodup_map hids he' he (hid.symm.trans hsame)
    have hmatch : (c.write v).matchesEdge e' = true :=
      matchesEdge_iff.mpr ⟨hid.symm, hcurrent.symm⟩
    exact .inr ⟨c, v, haccept, hchange, hmem, by simp [hmatch]⟩

theorem changes_applyAll : (compute (applyAll writes edges) s f).changes = [] := by
  refine List.eq_nil_iff_forall_not_mem.mpr fun x hx => ?_
  obtain ⟨e', he', haccept, hchange⟩ := mem_changes.mp hx
  rw [applyAll_eq_map] at he'
  obtain ⟨e, he, rfl⟩ := List.mem_map.mp he'
  rw [← EdgeFilter.accepts_bearing, bearing_applied, EdgeFilter.accepts_bearing] at haccept
  rcases applied_cases hids hlength hwrites he with ⟨hnone, -, heq⟩ | ⟨c, v, -, hc, -, heq⟩
  · rw [heq, hnone haccept] at hchange
    cases hchange
  · rw [heq, change?_applyTo hc] at hchange
    cases hchange

theorem compute_applyAll :
    compute (applyAll writes edges) s f = { compute edges s f with changes := [] } := by
  rw [compute_congr (map_bearing_applyAll writes edges), changes_applyAll hids hlength hwrites]

/-- When it is the turn of a write, one edge is there for it, and no one has touched that edge. -/
theorem filter_matchesEdge {pre post : List EdgeWrite} {w : EdgeWrite}
    (hsplit : writes = pre ++ w :: post) :
    ∃ e ∈ edges, e.id = w.edgeId ∧ (applyAll pre edges).filter w.matchesEdge = [e] := by
  have hmem : w ∈ writes := by simp [hsplit]
  obtain ⟨e, he, hmatch, -⟩ := exists_matchesEdge (hwrites ▸ hmem)
  have hid := (matchesEdge_iff.mp hmatch).1
  have hpast : applied pre e = e :=
    applied_eq_self_of_later (hsplit ▸ edgeId_nodup hids hlength hwrites) hid
  have hfound : e ∈ applyAll pre edges := by
    rw [applyAll_eq_map]
    exact List.mem_map.mpr ⟨e, he, hpast⟩
  have hnodup : ((applyAll pre edges).map Edge.id).Nodup := by
    rw [map_id_applyAll]
    exact hids
  refine ⟨e, he, hid, filter_eq_singleton hnodup hfound hmatch fun y _ hy => ?_⟩
  exact (matchesEdge_iff.mp hy).1.trans hid.symm

end Written

/-- What becomes of an edge when the writes of a change set are applied: with a change it takes the
write for it, and else nothing happens to it. -/
structure Moved (c : ChangeSet) (writes : List EdgeWrite) (e e' : Edge) : Prop where
  changed : e' ≠ e ↔ e.id ∈ c.changes.map EdgeChange.edgeId
  written : ∀ w ∈ writes, w.edgeId = e.id →
    e' = { e with groupId := some w.target, version := some w.version }

theorem moved_applied {edges : List Edge} {s : Snapshot} {f : EdgeFilter} {e : Edge}
    {vs : List Int} {writes : List EdgeWrite} (hids : (edges.map Edge.id).Nodup)
    (hlength : (compute edges s f).changes.length = vs.length)
    (hwrites : writes = List.zipWith EdgeChange.write (compute edges s f).changes vs)
    (he : e ∈ edges) : Moved (compute edges s f) writes e (applied writes e) := by
  rcases applied_cases hids hlength hwrites he with
    ⟨-, hpast, heq⟩ | ⟨c, v, haccept, hc, hmem, heq⟩
  · constructor
    · have hnone : e.id ∉ (compute edges s f).changes.map EdgeChange.edgeId := by
        rw [← map_edgeId_eq hlength hwrites]
        simpa using hpast
      simp [heq, hnone]
    · exact fun w hw hid => absurd hid (hpast w hw)
  · obtain ⟨hid, -, -, hne⟩ := change?_eq_some hc
    constructor
    · have hmoved : (c.write v).applyTo e ≠ e := fun h => hne (congrArg Edge.currentGroup h).symm
      have hlisted : c ∈ (compute edges s f).changes := mem_changes.mpr ⟨e, he, haccept, hc⟩
      rw [heq, ← hid]
      exact iff_of_true hmoved (List.mem_map_of_mem hlisted)
    · intro w hw hsame
      obtain rfl : w = c.write v :=
        List.inj_on_of_nodup_map (edgeId_nodup hids hlength hwrites) hw hmem (hsame.trans hid.symm)
      exact heq

/-- The writes of a change set, what they do to its edges, and that they leave nothing to do. -/
structure Clears (edges : List Edge) (s : Snapshot) (f : EdgeFilter) (block : VersionBlock)
    (writes : List EdgeWrite) : Prop where
  rows : writes.map (fun w => (w.edgeId, w.expected, w.target)) =
    (compute edges s f).changes.map fun c => (c.edgeId, c.current, c.target)
  versions : writes.map EdgeWrite.version = block.values
  ascending : writes.Pairwise fun w w' => w.edgeId < w'.edgeId
  apart : ∀ w ∈ writes, w.expected ≠ w.target
  /-- When it is the turn of a write, there is one edge for it, which is as it was at first. -/
  once : ∀ pre w post, writes = pre ++ w :: post →
    ∃ e ∈ edges, e.id = w.edgeId ∧ (applyAll pre edges).filter w.matchesEdge = [e]
  moved : List.Forall₂ (Moved (compute edges s f) writes) edges (applyAll writes edges)
  again : compute (applyAll writes edges) s f = { compute edges s f with changes := [] }

/-- Where no edge awaits a default group, the changes can be written, and once they are a second
look at the edges finds no change and all else as it was. -/
theorem writes_clear {edges : List Edge} {s : Snapshot} {f : EdgeFilter} {block : VersionBlock}
    (hids : (edges.map Edge.id).Nodup) (hawaiting : (compute edges s f).awaitingDefault = [])
    (hsize : block.size = (compute edges s f).changes.length) :
    ∃ writes, (compute edges s f).writes block = .ok writes ∧ Clears edges s f block writes := by
  have hlength : (compute edges s f).changes.length = block.values.length := by simp [hsize]
  have hok := writes_of_nodup hawaiting (changes_nodup s f hids) (changes_pairwise edges s f)
    hsize.symm
  refine ⟨_, hok, ?_⟩
  constructor
  · exact map_numbered_keys (fun _ _ => rfl) hlength
  · exact map_numbered_versions (fun _ _ => rfl) hlength
  · exact edgeId_ascending hids hlength rfl
  · exact fun w hw => (exists_matchesEdge hw).elim fun _ h => h.2.2
  · exact fun pre w post hsplit => filter_matchesEdge hids hlength rfl hsplit
  · rw [applyAll_eq_map, List.forall₂_map_right_iff, List.forall₂_same]
    exact fun e he => moved_applied hids hlength rfl he
  · exact compute_applyAll hids hlength rfl

/-- Groups with ids below, at and above zero. -/
def astride : Snapshot :=
  .build [.new (-2) "ada" "home" true, .new 0 "bob" "home" true, .new 6 "ada" "work" false]
    [.new 6 "ada" "bob"]

/-- Edges in a group, in none and in one that is not theirs; one of them belongs nowhere. -/
def scattered : List Edge :=
  [.new 7 "ada" "bob", (Edge.new 5 "bob" "ada").inGroup 4, .new 8 "bob" "eve",
    (Edge.new 3 "ada" "eve").inGroup 9, .new 4 "eve" "ada", .new 9 "ada" "bot"]

theorem writes_clear_scattered : ∃ writes,
    (compute scattered astride { excluded := ["bot"] }).writes ⟨41, 3⟩ = .ok writes ∧
      writes = [⟨3, 9, -2, 41⟩, ⟨5, 4, 0, 42⟩, ⟨7, 0, 6, 43⟩] ∧
      Clears scattered astride { excluded := ["bot"] } ⟨41, 3⟩ writes := by
  obtain ⟨writes, hok, hclears⟩ := @writes_clear scattered astride { excluded := ["bot"] } ⟨41, 3⟩
    (by decide) (by cbv) (by cbv)
  have hwrites : (compute scattered astride { excluded := ["bot"] }).writes ⟨41, 3⟩ =
      .ok [⟨3, 9, -2, 41⟩, ⟨5, 4, 0, 42⟩, ⟨7, 0, 6, 43⟩] := by cbv
  exact ⟨writes, hok, Except.ok.inj (hok.symm.trans hwrites), hclears⟩

end ChangeSet

end Regroup
