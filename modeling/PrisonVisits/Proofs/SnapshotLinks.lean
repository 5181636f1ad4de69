import Mathlib.Algebra.Group.Nat.Defs
import PrisonVisits.Proofs.Linkage

/-! # Snapshots keep the links

A store that is built from a snapshot, or from its first commits, has its drafts linked and finds
them: visits come in the order of their ids, so the index ends with the latest visit of each
application, and a draft is the latest of its own. -/

namespace PrisonVisits

open Std Table Rows

/-- The record saves or deletes a visit. -/
def Record.touchesVisit : Record → Bool
  | visitSaved _ | visitDeleted _ => true
  | _ => false

namespace Store

theorem ofCommits_eq_flatten (commits : List Commit) :
    ofCommits commits = empty.applyCommit commits.flatten := foldl_applyCommit commits empty

theorem visits_apply_of_not_touches {s : Store} {r : Record} (h : r.touchesVisit = false) :
    (s.apply r).visits = s.visits ∧ (s.apply r).visitByApplication = s.visitByApplication := by
  cases r with
  | groupSaved | groupDeleted | templateSaved | applicationSaved | applicationDeleted | audit =>
    exact ⟨rfl, rfl⟩
  | templateDeleted reference =>
    change (s.deleteTemplate reference).visits = _ ∧
      (s.deleteTemplate reference).visitByApplication = _
    unfold deleteTemplate
    split <;> exact ⟨rfl, rfl⟩
  | visitSaved | visitDeleted => cases h

/-- The index finds the latest visit of every application. -/
def FoundLatest (s : Store) : Prop :=
  ∀ v, s.rows.HasVisit v →
    (∀ w, s.rows.HasVisit w → w.applicationReference = v.applicationReference → w.id ≤ v.id) →
    s.visitByApplication[v.applicationReference]? = some v.id

theorem FoundLatest.found {s : Store} (h : s.FoundLatest) (hrows : s.rows.Linked) : s.Found :=
  fun v hv hdraft => h v hv fun w hw hsame => hrows.latest v w hv hdraft hw hsame

theorem FoundLatest.of_not_touches {s : Store} (h : s.FoundLatest) {commit : Commit}
    (hcommit : ∀ r ∈ commit, r.touchesVisit = false) : (s.applyCommit commit).FoundLatest := by
  induction commit generalizing s with
  | nil => exact h
  | cons r commit ih =>
    obtain ⟨hr, hrest⟩ := List.forall_mem_cons.mp hcommit
    obtain ⟨hvisits, hindex⟩ := visits_apply_of_not_touches (s := s) hr
    refine ih (s := s.apply r) ?_ hrest
    intro v hv hlatest
    have hsame : ∀ w, (s.apply r).rows.HasVisit w ↔ s.rows.HasVisit w := by
      intro w
      change (s.apply r).visits[w.id]? = some w ↔ s.visits[w.id]? = some w
      rw [hvisits]
    rw [hindex]
    exact h v ((hsame v).mp hv) fun w hw => hlatest w ((hsame w).mpr hw)

/-- A visit under an id above all others becomes the latest of its application. -/
theorem FoundLatest.visitSaved {s : Store} (h : s.FoundLatest) (hkeyed : s.rows.Keyed) {v : Visit}
    (hlater : ∀ w, s.rows.HasVisit w → w.id < v.id) : (s.apply (.visitSaved v)).FoundLatest := by
  intro w hw hlatest
  rw [rows_apply] at hw hlatest
  have hnew : s.visits[v.id]? = none := by
    refine Option.eq_none_iff_forall_ne_some.mpr fun old hold => ?_
    have hid : old.id = v.id := hkeyed.visits v.id old hold
    have hlt := hlater old (by rw [HasVisit, hid]; exact hold)
    exact UInt64.lt_irrefl v.id (hid ▸ hlt)
  change (s.saveVisit v).visitByApplication[w.applicationReference]? = _
  unfold saveVisit
  simp only [hnew, indexVisit, getElem?_insert]
  rcases hasVisit_visitSaved.mp hw with rfl | ⟨hne, hw'⟩
  · simp
  · have hother : v.applicationReference ≠ w.applicationReference := fun hsame =>
      UInt64.not_lt.mpr (hlatest v (hasVisit_visitSaved.mpr (.inl rfl)) hsame) (hlater w hw')
    rw [if_neg hother]
    exact h w hw' fun x hx =>
      hlatest x (hasVisit_visitSaved.mpr (.inr ⟨UInt64.ne_of_lt (hlater x hx), hx⟩))

theorem lt_of_compare {a b : UInt64} (h : compare a b = .lt) : a < b :=
  compareOfLessAndEq_eq_lt.mp h

theorem FoundLatest.visitsSaved {s : Store} (h : s.FoundLatest) (hkeyed : s.rows.Keyed)
    {visits : List Visit} (hvisits : Ascending Visit.id visits)
    (hlater : ∀ v ∈ visits, ∀ w, s.rows.HasVisit w → w.id < v.id) :
    (s.applyCommit (visits.map .visitSaved)).FoundLatest := by
  induction visits generalizing s with
  | nil => exact h
  | cons v visits ih =>
    obtain ⟨hv, hrest⟩ := List.pairwise_cons.mp hvisits
    obtain ⟨hfirst, hothers⟩ := List.forall_mem_cons.mp hlater
    refine ih (s := s.apply (.visitSaved v)) (h.visitSaved hkeyed hfirst)
      (by rw [rows_apply]; exact hkeyed.apply _) hrest fun x hx w hw => ?_
    rw [rows_apply] at hw
    rcases hasVisit_visitSaved.mp hw with rfl | ⟨-, hw⟩
    · exact lt_of_compare (hv x hx)
    · exact hothers x hx w hw

theorem foundLatest_empty : empty.FoundLatest := fun v hv => absurd hv (not_hasVisit_empty v)

/-- The tables in front of the visits save none, those behind leave them alone. -/
theorem foundLatest_take_parts {reading : Reading} {t : Rows} (hreading : reading.Of t)
    (h : t.Keyed) (n : Nat) : (empty.applyCommit (reading.parts.take n).flatten).FoundLatest := by
  have hfront : ∀ m, ∀ r ∈ ((reading.parts.take 3).take m).flatten, r.touchesVisit = false := by
    intro m r hr
    obtain ⟨c, hc, hr⟩ := List.mem_flatten.mp hr
    have hc := List.mem_of_mem_take hc
    simp only [Reading.parts, List.take_succ_cons, List.take_zero, List.mem_cons, List.not_mem_nil,
      or_false] at hc
    rcases hc with rfl | rfl | rfl <;> (obtain ⟨x, -, rfl⟩ := List.mem_map.mp hr; rfl)
  by_cases hn : n ≤ 3
  · have hquiet := foundLatest_empty.of_not_touches (hfront n)
    rwa [List.take_take, Nat.min_eq_left hn] at hquiet
  · obtain ⟨k, rfl⟩ : ∃ k, n = k + 4 := ⟨n - 4, by omega⟩
    have hsplit : (reading.parts.take (k + 4)).flatten = (reading.parts.take 3).flatten ++
        (t.visits.values.map .visitSaved ++
          ([(reading.bookings.map Prod.snd).flatten.map Record.audit].take k).flatten) := by
      simp [Reading.parts, hreading.visits]
    have hquiet := foundLatest_empty.of_not_touches (hfront 3)
    rw [List.take_take, Nat.min_self] at hquiet
    rw [hsplit, applyCommit_append, applyCommit_append]
    have hrows : (empty.applyCommit (reading.parts.take 3).flatten).rows = t.first 3 := by
      rw [rows_applyCommit, hreading.applyCommit_take_parts h]
    refine (hquiet.visitsSaved ?_ h.visits.ascending_values fun v _ w hw => ?_).of_not_touches ?_
    · rw [rows_applyCommit]
      exact keyed_empty.applyCommit _
    · rw [hrows] at hw
      simp [HasVisit, first] at hw
    · intro r hr
      obtain ⟨c, hc, hr⟩ := List.mem_flatten.mp hr
      have hc := List.mem_of_mem_take hc
      rw [List.mem_singleton.mp hc] at hr
      obtain ⟨x, -, rfl⟩ := List.mem_map.mp hr
      rfl

/-! ## The links of a snapshot -/

theorem idsBelow_ofCommits {commits : List Commit}
    (h : ∀ c ∈ commits, ∀ v, .visitSaved v ∈ c → v.id + 1 ≠ 0) : (ofCommits commits).IdsBelow := by
  rw [ofCommits_eq_flatten]
  refine linked_empty.below.applyCommit fun v hv => ?_
  obtain ⟨c, hc, hv⟩ := List.mem_flatten.mp hv
  exact h c hc v hv

theorem succ_ne_zero_of_lt {i n : UInt64} (h : i < n) : i + 1 ≠ 0 := by
  intro hzero
  have hlast : i = -1 := by
    rw [← UInt64.add_sub_cancel (a := i) (b := 1), hzero]
    rfl
  rw [hlast] at h
  have hmax : (-1 : UInt64).toNat = 2 ^ 64 - 1 := rfl
  have hn := n.toNat_lt
  have hlt := UInt64.lt_iff_toNat_lt.mp h
  omega

end Store

/-- A snapshot saves the visits that are stored. -/
theorem Rows.Reading.Of.hasVisit {r : Reading} {t : Rows} (hr : r.Of t) (h : t.Keyed) {c : Commit}
    (hc : c ∈ r.commits) {v : Visit} (hv : .visitSaved v ∈ c) : t.HasVisit v := by
  have hc := (List.mem_filter.mp hc).1
  simp only [Reading.parts, List.mem_cons, List.not_mem_nil, or_false] at hc
  rcases hc with rfl | rfl | rfl | rfl | rfl
  all_goals
    obtain ⟨x, hx, heq⟩ := List.mem_map.mp hv
    cases heq
  rw [hr.visits] at hx
  exact h.visits.mem_values.mp hx

theorem Store.mem_snapshot {s : Store} (h : s.Sound) {c : Commit} (hc : c ∈ s.snapshot) {v : Visit}
    (hv : .visitSaved v ∈ c) : s.rows.HasVisit v := by
  rw [snapshot_eq] at hc
  exact s.rows.byKey_of.hasVisit h.keyed hc hv

theorem Rows.HasVisit.of_first {t : Rows} {n : Nat} {v : Visit} (h : (t.first n).HasVisit v) :
    t.HasVisit v := by
  by_cases hn : 4 ≤ n
  · have hvisits : (t.first n).visits = t.visits := if_pos hn
    rwa [HasVisit, hvisits] at h
  · simp [HasVisit, Rows.first, hn] at h

theorem Rows.Linked.first {t : Rows} (h : t.Linked) (n : Nat) : (t.first n).Linked := by
  by_cases hn : 4 ≤ n
  · exact h.of_same (h.keyed.first n) (if_pos hn) (if_pos (by omega))
  · refine ⟨h.keyed.first n, fun v hv => ?_, fun v w hv => ?_⟩
    all_goals simp [HasVisit, Rows.first, hn] at hv

/-- A store that is built from the first commits of a snapshot has its drafts linked, in whatever
order the snapshot comes to the rows. -/
theorem Store.Linked.take_commits {s : Store} (h : s.Linked) {r : Reading} (hr : r.Of s.rows)
    (n : Nat) : (Store.ofCommits (r.commits.take n)).Linked := by
  obtain ⟨m, -, hflat, hrows⟩ := Store.rows_ofCommits_take hr h.sound.keyed n
  have hsound := Store.sound_ofCommits (r.commits.take n)
  have hlinked : (Store.ofCommits (r.commits.take n)).rows.Linked := by
    rw [hrows]
    exact h.rows.first m
  refine ⟨hsound, hlinked, Store.FoundLatest.found ?_ hlinked, Store.idsBelow_ofCommits ?_⟩
  · rw [Store.ofCommits_eq_flatten, hflat]
    exact Store.foundLatest_take_parts hr h.sound.keyed m
  · intro c hc v hv
    have hstored := hr.hasVisit h.sound.keyed (List.mem_of_mem_take hc) hv
    exact Store.succ_ne_zero_of_lt (h.below v hstored)

end PrisonVisits
