import PrisonVisits.Proofs.DrawnReferences
import PrisonVisits.Proofs.SnapshotLinks

/-! # The index from applications to visits

As long as no two visits are of the same application, the index leads from every application to its
visit, whatever has become of the draft. Then it says nothing that the rows do not say, so a store
that is built anew answers as before. Actions keep this where a new application has a reference that
no visit has. -/

namespace PrisonVisits

open Std Table Rows

namespace Store

/-- The index finds every visit. -/
def FoundAll (s : Store) : Prop :=
  ∀ v, s.rows.HasVisit v → s.visitByApplication[v.applicationReference]? = some v.id

variable {s : Store}

theorem foundAll_empty : empty.FoundAll := fun v hv => absurd hv (not_hasVisit_empty v)

theorem FoundAll.unique (h : s.FoundAll) {v w : Visit} (hv : s.rows.HasVisit v)
    (hw : s.rows.HasVisit w) (hsame : v.applicationReference = w.applicationReference) : v = w := by
  have hid := h v hv
  rw [hsame, h w hw] at hid
  exact hv.unique hw (Option.some.inj hid).symm

/-- Where visits are of different applications, the latest visit of each is every visit. -/
theorem FoundLatest.foundAll (h : s.FoundLatest)
    (hunique : ∀ v w, s.rows.HasVisit v → s.rows.HasVisit w →
      v.applicationReference = w.applicationReference → v = w) : s.FoundAll := by
  intro v hv
  refine h v hv fun w hw hsame => ?_
  rw [hunique w v hw hv hsame]
  exact UInt64.le_refl _

/-- What the index answers can be read off the rows. -/
theorem FoundAll.visitForApplication?_iff (h : s.FoundAll) (hsound : s.Sound)
    {application : Reference} {v : Visit} : s.visitForApplication? application = some v ↔
      s.rows.HasVisit v ∧ v.applicationReference = application := by
  constructor
  · exact hsound.visitForApplication
  · rintro ⟨hv, rfl⟩
    unfold visitForApplication?
    rw [h v hv]
    exact hv

/-! ## Records -/

theorem FoundAll.apply (h : s.FoundAll) (hkeyed : s.rows.Keyed) {r : Record}
    (hr : s.rows.Orderly r) (hunique : ∀ v w, r = .visitSaved v → s.rows.HasVisit w →
      w.applicationReference = v.applicationReference → w.id = v.id) : (s.apply r).FoundAll := by
  have hfinds : (s.apply r).Finds fun _ => True := by
    refine Finds.apply (fun v hv _ => h v hv) hkeyed fun v hsaved => ?_
    rcases hr v hsaved with ⟨old, hold, hid, happlication, -⟩ | ⟨hnew, -⟩
    · exact .inl ⟨old, hold, hid, happlication, fun _ => trivial⟩
    · refine .inr ⟨hnew, fun w hw _ hsame => ?_⟩
      have hid := hunique v w hsaved hw hsame
      rw [HasVisit, hid, hnew] at hw
      cases hw
  exact fun v hv => hfinds v hv trivial

/-- A commit keeps the index if it gives no application two visits. -/
theorem FoundAll.applyCommit (h : s.FoundAll) (hsound : s.Sound) {c : Commit}
    (hcommit : s.rows.OrderlyCommit c) (owner : Reference → UInt64 → Prop)
    (howner : ∀ {application i j}, owner application i → owner application j → i = j)
    (hstored : ∀ v, s.rows.HasVisit v → owner v.applicationReference v.id)
    (hsaved : ∀ v, .visitSaved v ∈ c → owner v.applicationReference v.id) :
    (s.applyCommit c).FoundAll := by
  induction c generalizing s with
  | nil => exact h
  | cons r c ih =>
    have hfirst : (s.apply r).FoundAll := by
      refine h.apply hsound.keyed hcommit.1 ?_
      rintro v w rfl hw hsame
      exact howner (hsame ▸ hstored w hw) (hsaved v List.mem_cons_self)
    refine ih hfirst (hsound.apply r) ?_ (fun v hv => ?_)
      fun v hv => hsaved v (List.mem_cons_of_mem _ hv)
    · rw [rows_apply]
      exact hcommit.2
    · rw [rows_apply] at hv
      refine hasVisit_applyCommit (c := [r]) (q := fun v => owner v.applicationReference v.id)
        hstored (fun v hv => hsaved v ?_) hv
      rw [List.mem_singleton.mp hv]
      exact List.mem_cons_self

/-- A whole snapshot finds every visit again, in whatever order it comes to the rows. -/
theorem FoundAll.rebuilt (h : s.FoundAll) (hsound : s.Sound) {r : Reading} (hr : r.Of s.rows) :
    (ofCommits r.commits).FoundAll := by
  obtain ⟨m, -, hflat, -⟩ := rows_ofCommits_take hr hsound.keyed r.commits.length
  rw [List.take_length] at hflat
  have hrows := rows_ofCommits_commits hr hsound.keyed
  refine FoundLatest.foundAll ?_ ?_
  · rw [ofCommits_eq_flatten, hflat]
    exact foundLatest_take_parts hr hsound.keyed m
  · rw [hrows]
    exact fun v w hv hw hsame => h.unique hv hw hsame

end Store

/-! ## Actions -/

namespace Desk

variable {d : Desk}

/-- The application of every visit has a reference that has been drawn. -/
def AllDrawn (d : Desk) : Prop :=
  ∀ v, d.store.rows.HasVisit v →
    ∃ i < d.references.drawn, v.applicationReference = d.references.reference i

/-- A visit that an action saves is of an application that had it before, or of a new application.
-/
theorem saved_of_recordsOf (h : d.store.Linked) {a : Action} {v : Visit}
    (hv : .visitSaved v ∈ d.recordsOf a) :
    (∃ old, d.store.rows.HasVisit old ∧ old.id = v.id ∧
      old.applicationReference = v.applicationReference) ∨
    v.id = d.store.nextVisitId ∧
      d.references.Gave (d.perform a).references v.applicationReference := by
  rcases d.recordsOf_cases a with hnil | hw | rfl
  · rw [hnil] at hv
    cases hv
  · rcases renewed_of_writes h hw hv with hold | ⟨hstarts, hid⟩
    · exact .inl hold
    · obtain ⟨x, o, hrecords, hgave⟩ := start_of_recordsOf (List.ne_nil_of_mem hv) hstarts
      rw [hrecords] at hv
      rw [saved_of_start hv] at hid ⊢
      exact .inr ⟨hid, hgave⟩
  · rw [recordsOf_expire] at hv
    exact absurd hv (no_visit_expiryCommits d _ v)

theorem AllDrawn.perform (hdrawn : d.AllDrawn) (h : d.store.Linked) {a : Action}
    (hrows : (d.perform a).store.rows = d.store.rows.applyCommit (d.recordsOf a)) :
    (d.perform a).AllDrawn := by
  have hlater := d.later_perform a
  have hbefore : ∀ v, d.store.rows.HasVisit v → ∃ i < (d.perform a).references.drawn,
      v.applicationReference = (d.perform a).references.reference i := by
    intro v hv
    obtain ⟨i, hi, heq⟩ := hdrawn v hv
    exact ⟨i, Nat.lt_of_lt_of_le hi hlater.drawn, by rw [heq, hlater.reference]⟩
  intro v hv
  rw [hrows] at hv
  refine hasVisit_applyCommit (q := fun v => ∃ i < (d.perform a).references.drawn,
    v.applicationReference = (d.perform a).references.reference i) hbefore (fun v hv => ?_) hv
  rcases saved_of_recordsOf h hv with ⟨old, hold, -, hsame⟩ | ⟨-, i, -, hi, heq⟩
  · rw [← hsame]
    exact hbefore old hold
  · exact ⟨i, hi, by rw [heq, hlater.reference]⟩

end Desk

end PrisonVisits
