import PrisonVisits.Proofs.Runs

/-! # A booking has one booked visit

Only booking saves a booked visit, and what was booked under the same reference is cancelled in
front of it. So at most one visit of a booking is booked, not only between two actions but behind
every record: of a commit that is being written, and of a journal that is being read. -/

namespace PrisonVisits

open Rows

/-- How many visits of a booking are booked. -/
def Store.bookedCount (s : Store) (bookingReference : Reference) : Nat :=
  s.visits.values.countP fun v => v.isBooked && v.reference == bookingReference

namespace Rows

/-- Two booked visits of one booking are the same. -/
def OneBooked (t : Rows) : Prop :=
  ∀ v w, t.HasVisit v → t.HasVisit w → v.isBooked = true → w.isBooked = true →
    v.reference = w.reference → v = w

variable {t : Rows} {v w : Visit}

theorem oneBooked_empty : Store.empty.rows.OneBooked :=
  fun v _ hv => absurd hv (not_hasVisit_empty v)

theorem OneBooked.of_subset (h : t.OneBooked) {t' : Rows}
    (hsub : ∀ v, t'.HasVisit v → v.isBooked = true → t.HasVisit v) : t'.OneBooked :=
  fun v w hv hw hvb hwb => h v w (hsub v hv hvb) (hsub w hw hwb) hvb hwb

/-- A commit that saves no booked visit books none. -/
theorem hasVisit_of_applyCommit {c : Commit} (hc : ∀ w, .visitSaved w ∈ c → w.isBooked = false)
    (hv : (t.applyCommit c).HasVisit v) : v.isBooked = true → t.HasVisit v := by
  refine hasVisit_applyCommit (q := fun v => v.isBooked = true → t.HasVisit v) (fun w hw _ => hw)
    (fun w hw hbooked => ?_) hv
  rw [hc w hw] at hbooked
  cases hbooked

/-- Behind every record of the commit, two booked visits of one booking are the same. -/
def OneBookedAlong (t : Rows) (c : Commit) : Prop := ∀ n, (t.applyCommit (c.take n)).OneBooked

theorem OneBooked.along (h : t.OneBooked) {c : Commit}
    (hc : ∀ w, .visitSaved w ∈ c → w.isBooked = false) : t.OneBookedAlong c := fun _ =>
  h.of_subset fun _ hv =>
    hasVisit_of_applyCommit (fun w hw => hc w (List.mem_of_mem_take hw)) hv

theorem OneBookedAlong.last {c : Commit} (h : t.OneBookedAlong c) :
    (t.applyCommit c).OneBooked := by
  have hlast := h c.length
  rwa [List.take_length] at hlast

theorem OneBookedAlong.append {earlier later : Commit} (hearlier : t.OneBookedAlong earlier)
    (hlater : (t.applyCommit earlier).OneBookedAlong later) :
    t.OneBookedAlong (earlier ++ later) := by
  intro n
  rw [List.take_append]
  by_cases hn : n ≤ earlier.length
  · rw [Nat.sub_eq_zero_of_le hn, List.take_zero, List.append_nil]
    exact hearlier n
  · rw [List.take_of_length_le (Nat.le_of_not_le hn), applyCommit_append]
    exact hlater _

/-- A visit may be booked if none of its booking is. -/
theorem OneBooked.booked (h : t.OneBooked)
    (hnone : ∀ v, t.HasVisit v → v.isBooked = true → v.reference ≠ w.reference) :
    (t.apply (.visitSaved w)).OneBooked := by
  intro v x hv hx hvb hxb hsame
  rcases hasVisit_visitSaved.mp hv with hvw | ⟨-, hvold⟩ <;>
    rcases hasVisit_visitSaved.mp hx with hxw | ⟨-, hxold⟩
  · rw [hvw, hxw]
  · exact absurd (hsame.symm.trans (congrArg Visit.reference hvw)) (hnone x hxold hxb)
  · exact absurd (hsame.trans (congrArg Visit.reference hxw)) (hnone v hvold hvb)
  · exact h v x hvold hxold hvb hxb hsame

theorem OneBookedAlong.cons {r : Record} {c : Commit} (h : t.OneBooked)
    (hrest : (t.apply r).OneBookedAlong c) : t.OneBookedAlong (r :: c) := by
  intro n
  cases n with
  | zero => exact h
  | succ n => exact hrest n

end Rows

theorem Visit.isBooked_of_isDraft {v : Visit} (h : v.isDraft = true) : v.isBooked = false := by
  refine eq_false_of_ne_true fun hbooked => ?_
  rw [isDraft_of_isBooked hbooked] at h
  cases h

/-! ## What an action commits -/

namespace Desk

variable {d : Desk}

theorem oneBooked_bookRecords (h : d.store.Linked) (hone : d.store.rows.OneBooked)
    {reference : Reference} {existing : Application} {draft : Visit}
    (hstored : d.store.application? reference = some existing)
    (hdrafted : d.store.draft? reference = some draft) (actionedBy : String) :
    d.store.rows.OneBookedAlong
      ((d.store.bookedVisit? existing.bookingReference).toList.flatMap
          (supersedeRecords · actionedBy d.now) ++
        [.visitSaved (existing.booked draft d.now), .applicationSaved (existing.complete d.now),
          existing.bookedAudit (existing.booked draft d.now) actionedBy d.now]) := by
  have hsuperseded : ∀ w, .visitSaved w ∈
      (d.store.bookedVisit? existing.bookingReference).toList.flatMap
        (supersedeRecords · actionedBy d.now) → w.isBooked = false := by
    intro w hw
    obtain ⟨old, -, hw⟩ := List.mem_flatMap.mp hw
    simp only [supersedeRecords, Visit.cancelledAudit, List.mem_cons, Record.visitSaved.injEq,
      reduceCtorEq, List.not_mem_nil, or_false] at hw
    rw [hw]
    rfl
  have hbooking : (existing.booked draft d.now).reference = existing.bookingReference :=
    (h.drafts hstored hdrafted).booking
  refine (hone.along hsuperseded).append (.cons (hone.along hsuperseded).last ?_)
  refine OneBooked.along (OneBooked.booked (hone.along hsuperseded).last fun v hv hvb hsame => ?_)
    (by simp [Application.bookedAudit])
  rw [hbooking] at hsame
  -- the booked visit of the booking has been superseded
  have hstill := hasVisit_of_applyCommit hsuperseded hv hvb
  cases hold : d.store.bookedVisit? existing.bookingReference with
  | none =>
    have hmem := h.sound.mem_visitsForReference.mpr ⟨hstill, hsame⟩
    exact List.find?_eq_none.mp hold v hmem hvb
  | some old =>
    obtain ⟨holdrow, holdref, holdb⟩ := h.sound.of_bookedVisit? hold
    have hown : v = old := hone v old hstill holdrow hvb holdb (hsame.trans holdref.symm)
    rw [hold] at hv
    have hv : (d.store.rows.apply (.visitSaved (superseded old d.now))).HasVisit v := hv
    rcases hasVisit_visitSaved.mp hv with hcancelled | ⟨hne, -⟩
    · rw [hcancelled] at hvb
      cases hvb
    · exact hne (by rw [hown]; rfl)

/-- Behind every record that an action commits, a booking has one booked visit. -/
theorem oneBooked_of_writes (h : d.store.Linked) (hone : d.store.rows.OneBooked) {a : Action}
    {c : Commit} (hw : d.Writes a c) : d.store.rows.OneBookedAlong c := by
  cases hw with
  | createGroup | updateGroup | deleteGroup | createTemplate | updateTemplate
  | setTemplateActive | deleteTemplate => exact hone.along (by simp)
  | reserve counts booking known admits unused =>
    refine hone.along fun w hw => ?_
    simp only [start, Application.audit, List.mem_cons, reduceCtorEq, Record.visitSaved.injEq,
      List.not_mem_nil, or_false, false_or] at hw
    rw [hw]
    rfl
  | change counts found known admits unused =>
    refine hone.along fun w hw => ?_
    simp only [start, Application.audit, List.mem_cons, reduceCtorEq, Record.visitSaved.injEq,
      List.not_mem_nil, or_false, false_or] at hw
    rw [hw]
    rfl
  | amend stored incomplete drafted counts placing =>
    refine hone.along fun w hw => ?_
    simp only [Application.audit, List.mem_cons, reduceCtorEq, Record.visitSaved.injEq,
      List.not_mem_nil, or_false, false_or] at hw
    rw [hw]
    have hdrafts := drafts_of_placeAmended (h.drafts stored drafted) placing
    exact Visit.isBooked_of_isDraft hdrafts.isDraft
  | book stored incomplete bookable drafted left applies =>
    exact oneBooked_bookRecords h hone stored drafted _
  | @cancel bookingReference c target outcome short live =>
    obtain ⟨audit, hrecords⟩ := cancelRecords_eq h _ (h.sound.of_cancellationTarget live).1 c
    refine hone.along fun w hw => ?_
    rw [hrecords] at hw
    rcases List.mem_cons.mp hw with hw | hw
    · cases hw
      rfl
    · exact absurd hw (no_visit_behind_target d _ _ _ _ w)
  | discard => exact hone.along fun w hw => absurd hw (no_visit_discardRecords _ _ _ _ w)
  | expire => exact hone.along fun w hw => absurd hw (no_visit_discardRecords _ _ _ _ w)

/-- Sweeps book nothing. -/
theorem oneBooked_of_recordsOf (h : d.store.Linked) (hone : d.store.rows.OneBooked) (a : Action) :
    d.store.rows.OneBookedAlong (d.recordsOf a) := by
  rcases d.recordsOf_cases a with hnil | hw | rfl
  · rw [hnil]
    exact hone.along (by simp)
  · exact oneBooked_of_writes h hone hw
  · rw [recordsOf_expire]
    exact hone.along fun w hw => absurd hw (no_visit_expiryCommits d _ w)

/-! ## Runs -/

/-- Every action keeps that a booking has one booked visit, in the store and in the journal. -/
theorem preserved_oneBooked : Preserved False (fun _ _ => True) (fun _ t => t.OneBooked)
    (fun _ commits => Store.empty.rows.OneBookedAlong commits.flatten) where
  expire := fun _ => trivial
  empty := fun _ _ _ => oneBooked_empty.along (by simp)
  restored := by
    intro around commits h
    rw [Store.rows_ofCommits]
    exact h.last
  writes := fun h hone _ hw => (oneBooked_of_writes h hone hw).last
  appended := by
    intro d a c commits h hone _ hw hrows hcommits
    rw [List.flatten_append, List.flatten_singleton]
    refine hcommits.append ?_
    rw [← Store.rows_ofCommits, hrows]
    exact oneBooked_of_writes h hone hw
  compacted := by
    intro s around n h hone _ m
    refine hone.of_subset fun v hv _ => hasVisit_applyCommit (fun w hw => ?_) (fun w hw => ?_) hv
    · exact absurd hw (not_hasVisit_empty w)
    · obtain ⟨c, hc, hw⟩ := List.mem_flatten.mp (List.mem_of_mem_take hw)
      exact Store.mem_snapshot h.sound (List.mem_of_mem_take hc) hw
  turned := fun _ _ hone => hone
  turnedDisk := fun _ _ hcommits => hcommits

end Desk

theorem Store.Sound.bookedCount_le_one {s : Store} (h : s.Sound) (hone : s.rows.OneBooked)
    (bookingReference : Reference) : s.bookedCount bookingReference ≤ 1 := by
  refine Table.countP_le_one h.keyed.visits.ascending_values.nodup fun v hv w hw hpv hpw => ?_
  rw [Bool.and_eq_true, beq_iff_eq] at hpv hpw
  exact hone v w (h.mem_visits.mp hv) (h.mem_visits.mp hw) hpv.1 hpw.1 (hpv.2.trans hpw.2.symm)

/-- Wherever a run from an empty journal stands, behind whichever record of an action, no booking
has two booked visits, nor has it behind any record while the journal is read again. -/
theorem at_most_one_booked_visit (policy : BookingPolicy) (now : Moment)
    (prisoners : Std.ExtTreeMap String PrisonerContext) (references : ReferenceSource)
    (actions : List Action)
    (hrange : (Desk.openOn #[] policy now prisoners references).Throughout Desk.InRange actions)
    (bookingReference : Reference) :
    let d := (Desk.openOn #[] policy now prisoners references).run actions
    d.store.bookedCount bookingReference ≤ 1 ∧
      (∀ a n, (d.store.applyCommit ((d.recordsOf a).take n)).bookedCount bookingReference ≤ 1) ∧
      ∀ n, (Store.empty.applyCommit (d.journal.replay.flatten.take n)).bookedCount
        bookingReference ≤ 1 := by
  intro d
  have hkept := (Desk.kept_throughout Desk.preserved_oneBooked hrange False.elim).last
  have hsound := hkept.linked.sound
  refine ⟨hsound.bookedCount_le_one hkept.live _, fun a n => ?_, fun n => ?_⟩
  · refine (hsound.applyCommit _).bookedCount_le_one ?_ _
    rw [Store.rows_applyCommit]
    exact Desk.oneBooked_of_recordsOf hkept.linked hkept.live a n
  · refine (Store.sound_empty.applyCommit _).bookedCount_le_one ?_ _
    obtain ⟨written, hwritten⟩ := hkept.disk
    rw [Store.rows_applyCommit, Desk.replay_eq hwritten]
    exact hwritten.readable n

theorem at_most_one_booked_visit_sample :
    (Sample.desk.run (Sample.actions ++ [.book "c" "clerk"])).store.bookedCount "b" = 1 ∧
      ∀ n, ((Sample.desk.run Sample.actions).store.applyCommit
        (((Sample.desk.run Sample.actions).recordsOf (.book "c" "clerk")).take
          n)).bookedCount "b" ≤ 1 :=
  ⟨by decide +kernel, (at_most_one_booked_visit Sample.policy _ _ Sample.letters Sample.actions
    Sample.inRange_actions "b").2.1 _⟩

end PrisonVisits
