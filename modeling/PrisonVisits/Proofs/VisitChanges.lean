import PrisonVisits.Proofs.ApplicationTurns
import PrisonVisits.Proofs.Backing
import PrisonVisits.Proofs.OneBooked
import PrisonVisits.Proofs.RowKeys
import PrisonVisits.Proofs.Seats

/-! # What becomes of visits

Drafts come and go, but a visit that was booked or cancelled stays. What an action saves is the
draft of a new application, or it takes the place of a draft, or it is a visit that ends; what it
deletes is a draft. With applications it is the same: none that is completed is touched. -/

namespace PrisonVisits

open Rows

/-- The visit when it has been cancelled. -/
def Visit.ended (v : Visit) (outcome : Outcome) (notes : List VisitNote) (now : Moment) : Visit :=
  { v with
    status := .cancelled
    outcome := some outcome
    notes := v.notes ++ notes
    modifiedAt := now }

theorem Visit.isDraft_of_isCancelled {v : Visit} (h : v.isCancelled = true) :
    v.isDraft = false := by
  refine eq_false_of_ne_true fun hdraft => ?_
  rw [isCancelled_of_isDraft hdraft] at h
  cases h

theorem Rows.touchesApplication_of_key {r : Record} {reference : Reference}
    (h : r.key = .application reference) : touchesApplication reference r := by
  cases r with
  | applicationSaved | applicationDeleted => exact RowKey.application.inj h
  | _ => cases h

namespace Desk

variable {d : Desk}

/-- Where a visit that is saved comes from. -/
inductive Saves (d : Desk) (w : Visit) : Prop
  /-- It is the draft of a new application, for a booking that is new or has a visit of the same
  prisoner already. If it changes something, that is booked. -/
  | new (next : w.id = d.store.nextVisitId) (draft : w.isDraft = true)
      (booking : (∀ v, d.store.rows.HasVisit v → v.reference ≠ w.reference) ∨
        ∃ v, d.store.rows.HasVisit v ∧ v.reference = w.reference ∧ v.prisonerId = w.prisonerId)
      (changes : w.status = .changing →
        ∃ v, d.store.rows.HasVisit v ∧ v.reference = w.reference ∧ v.isBooked = true)
  /-- It takes the place of a draft, which may have been booked. -/
  | renewed {old : Visit} (stored : d.store.rows.HasVisit old) (draft : old.isDraft = true)
      (id : w.id = old.id) (booking : w.reference = old.reference)
      (prisoner : w.prisonerId = old.prisonerId)
      (status : w.status = old.status ∨ w.status = .booked)
  /-- It ends. -/
  | ended {old : Visit} (stored : d.store.rows.HasVisit old) (live : old.isCancelled = false)
      (outcome : Outcome) (notes : List VisitNote) (end_eq : w = old.ended outcome notes d.now)

/-! ## The visits that a commit saves -/

theorem superseded_eq_ended (old : Visit) (now : Moment) :
    superseded old now = old.ended .supersededCancellation [] now := by
  simp [superseded, Visit.ended]

theorem saved_of_book {booked : Option Visit} {a : Application} {draft w : Visit}
    {actionedBy : String} {now : Moment}
    (hw : .visitSaved w ∈ booked.toList.flatMap (supersedeRecords · actionedBy now) ++
      [.visitSaved (a.booked draft now), .applicationSaved (a.complete now),
        a.bookedAudit (a.booked draft now) actionedBy now]) :
    (∃ old, booked = some old ∧ w = superseded old now) ∨ w = a.booked draft now := by
  simpa [supersedeRecords, Visit.cancelledAudit, Application.bookedAudit] using hw

theorem saved_of_cancel (h : d.store.Linked) {bookingReference : Reference} {target w : Visit}
    (htarget : d.store.rows.HasVisit target) {c : Cancellation} (hw : .visitSaved w ∈
      d.cancelRecords (d.store.visitsForReference bookingReference) target c) :
    w = d.cancelledTarget target c := by
  obtain ⟨audit, hrecords⟩ := cancelRecords_eq h bookingReference htarget c
  rw [hrecords] at hw
  rcases List.mem_cons.mp hw with hw | hw
  · exact Record.visitSaved.inj hw
  · exact absurd hw (no_visit_behind_target d _ _ _ _ w)

/-- A booking that is reserved under has no visits yet, or one of the prisoner. -/
theorem booking_of_booksUnder (h : d.store.Sound) {r : ReserveRequest}
    {bookingReference : Reference} (hbooks : d.BooksUnder r bookingReference) :
    (∀ v, d.store.rows.HasVisit v → v.reference ≠ bookingReference) ∨
      ∃ v, d.store.rows.HasVisit v ∧ v.reference = bookingReference ∧
        v.prisonerId = r.prisonerId := by
  cases hbooks with
  | fresh asked unused => exact .inl (h.unused unused).visit
  | @again first asked known own =>
    obtain ⟨hrow, hreference⟩ := h.mem_visitsForReference.mp (List.mem_of_head? known)
    exact .inr ⟨first, hrow, hreference, own⟩

theorem saves_of_writes (h : d.store.Linked) {a : Action} {c : Commit} (hc : d.Writes a c)
    {w : Visit} (hw : .visitSaved w ∈ c) : d.Saves w := by
  cases hc with
  | createGroup | updateGroup | deleteGroup | createTemplate | updateTemplate
  | setTemplateActive | deleteTemplate => simp at hw
  | reserve counts booking known admits unused =>
    cases saved_of_start hw
    exact .new rfl rfl (booking_of_booksUnder h.sound booking) nofun
  | change counts found known admits unused =>
    cases saved_of_start hw
    obtain ⟨hrow, hreference, hbooked⟩ := h.sound.of_bookedVisit? found
    exact .new rfl rfl (.inr ⟨_, hrow, hreference, rfl⟩) fun _ => ⟨_, hrow, hreference, hbooked⟩
  | @amend reference m existing placed draft moved stored incomplete drafted counts placing =>
    cases saved_of_amend hw
    obtain ⟨hrow, hdraft, -⟩ := h.sound.of_draft? drafted
    have hsame := sameRows_of_placeAmended placing
    exact .renewed hrow hdraft hsame.id hsame.draftBooking hsame.prisoner (.inl hsame.status)
  | book stored incomplete bookable drafted left applies =>
    rcases saved_of_book hw with ⟨old, hold, rfl⟩ | rfl
    · obtain ⟨hrow, -, hbooked⟩ := h.sound.of_bookedVisit? hold
      exact .ended hrow (by simp_all [Visit.isBooked, Visit.isCancelled]) _ _
        (superseded_eq_ended old d.now)
    · obtain ⟨hrow, hdraft, -⟩ := h.sound.of_draft? drafted
      exact .renewed hrow hdraft rfl rfl rfl (.inr rfl)
  | @cancel bookingReference c target outcome short live =>
    obtain ⟨hrow, -, hlive⟩ := h.sound.of_cancellationTarget live
    refine .ended hrow ?_ _ _ (saved_of_cancel h hrow hw)
    rcases hlive with hbooked | hdraft
    · simp_all [Visit.isBooked, Visit.isCancelled]
    · exact Visit.isCancelled_of_isDraft hdraft
  | discard => exact absurd hw (no_visit_discardRecords _ _ _ _ w)
  | expire => exact absurd hw (no_visit_discardRecords _ _ _ _ w)

/-! ## What is deleted -/

theorem draft_of_discardRecords (h : d.store.Linked) {reference : Reference} {a : Application}
    {actionedBy : String} {now : Moment} {i : UInt64}
    (hi : .visitDeleted i ∈ a.discardRecords (d.store.draft? reference) actionedBy now) :
    ∃ v, d.store.rows.HasVisit v ∧ v.isDraft = true ∧ v.id = i := by
  have hfound : ∃ v, d.store.draft? reference = some v ∧ v.isDraft = true ∧ v.id = i := by
    simpa [Application.discardRecords, Application.audit, and_assoc] using hi
  obtain ⟨v, hv, hdraft, hid⟩ := hfound
  exact ⟨v, (h.sound.of_draft? hv).1, hdraft, hid⟩

/-- Only drafts are deleted. -/
theorem draft_of_writes (h : d.store.Linked) {a : Action} {c : Commit} (hc : d.Writes a c)
    {i : UInt64} (hi : .visitDeleted i ∈ c) :
    ∃ v, d.store.rows.HasVisit v ∧ v.isDraft = true ∧ v.id = i := by
  cases hc with
  | createGroup | updateGroup | deleteGroup | createTemplate | updateTemplate
  | setTemplateActive | deleteTemplate => simp at hi
  | reserve | change => simp [start, Application.audit] at hi
  | amend => simp [Application.audit] at hi
  | book => simp [supersedeRecords, Visit.cancelledAudit, Application.bookedAudit] at hi
  | cancel outcome short live =>
    have hrow := (h.sound.of_cancellationTarget live).1
    obtain ⟨audit, hrecords⟩ := cancelRecords_eq h _ hrow _
    rw [hrecords] at hi
    rcases List.mem_cons.mp hi with hi | hi
    · cases hi
    · obtain ⟨v, hv, hdraft, hid, -⟩ := pending_of_visitDeleted h hi
      exact ⟨v, hv, hdraft, hid⟩
  | discard | expire => exact draft_of_discardRecords h hi

/-- The application of a draft is not completed. -/
theorem open_of_draft (h : d.store.Linked) {v : Visit} (hv : d.store.rows.HasVisit v)
    (hdraft : v.isDraft = true) {x : Application}
    (hx : d.store.rows.applications[v.applicationReference]? = some x) : x.completed = false := by
  obtain ⟨a, ha, hopen, -⟩ := h.rows.application v hv hdraft
  cases ha.symm.trans hx
  exact hopen

/-- Whatever a commit does to an application is done to one that is not completed. -/
theorem open_of_writes (h : d.store.Linked) {a : Action} {c : Commit} (hc : d.Writes a c)
    {r : Record} (hr : r ∈ c) {reference : Reference} (htouches : touchesApplication reference r)
    {x : Application} (hx : d.store.rows.applications[reference]? = some x) :
    x.completed = false := by
  -- an application that was looked up is stored under its own reference
  have hown : ∀ {key existing}, d.store.application? key = some existing →
      existing.completed = false → existing.reference = reference → x.completed = false := by
    intro key existing hstored hopen hsame
    have hkey : existing.reference = key := h.sound.keyed.applications key existing hstored
    rw [← hsame, hkey] at hx
    cases hstored.symm.trans hx
    exact hopen
  cases hc with
  | createGroup | updateGroup | deleteGroup | createTemplate | updateTemplate
  | setTemplateActive | deleteTemplate =>
    rw [List.mem_singleton.mp hr] at htouches
    cases htouches
  | reserve _ _ _ _ unused | change _ _ _ _ unused =>
    rcases List.mem_cons.mp hr with rfl | hr
    · cases (h.sound.unused unused).application.symm.trans (htouches ▸ hx)
    · simp only [List.mem_cons, List.not_mem_nil, or_false] at hr
      rcases hr with rfl | rfl <;> cases htouches
  | amend stored incomplete drafted counts placing =>
    rcases List.mem_cons.mp hr with rfl | hr
    · exact hown stored incomplete
        ((sameRows_of_placeAmended placing).reference.symm.trans htouches)
    · simp only [List.mem_cons, List.not_mem_nil, or_false] at hr
      rcases hr with rfl | rfl <;> cases htouches
  | book stored incomplete bookable drafted left applies =>
    simp only [List.mem_append, List.mem_flatMap, supersedeRecords, List.mem_cons,
      List.not_mem_nil, or_false] at hr
    rcases hr with ⟨old, -, rfl | rfl⟩ | rfl | rfl | rfl
    · cases htouches
    · cases htouches
    · cases htouches
    · exact hown stored incomplete htouches
    · cases htouches
  | cancel outcome short live =>
    have hrow := (h.sound.of_cancellationTarget live).1
    obtain ⟨audit, hrecords⟩ := cancelRecords_eq h _ hrow _
    rw [hrecords] at hr
    simp only [List.mem_cons, List.mem_append] at hr
    rcases hr with rfl | hr | rfl | hr
    · cases htouches
    · split at hr
      · next hdraft =>
        rw [List.mem_singleton.mp hr] at htouches
        exact open_of_draft h hrow hdraft (htouches ▸ hx)
      · cases hr
    · cases htouches
    · obtain ⟨v, hv, hdraft, -, rfl | rfl | ⟨_, rfl⟩, -⟩ := mem_pendingRecords h hr
      · exact open_of_draft h hv hdraft (htouches ▸ hx)
      · cases htouches
      · cases htouches
  | discard stored incomplete | expire stored incomplete =>
    simp only [Application.discardRecords, List.cons_append, List.mem_cons, List.mem_append,
      List.mem_map, List.not_mem_nil, or_false] at hr
    rcases hr with rfl | ⟨v, -, rfl⟩ | rfl
    · exact hown stored incomplete htouches
    · cases htouches
    · cases htouches

/-! ## What stays -/

/-- A visit that a commit saves is stored behind it. -/
theorem hasVisit_of_saved (h : d.store.Linked) {a : Action} {c : Commit} (hc : d.Writes a c)
    {w : Visit} (hw : .visitSaved w ∈ c) : (d.store.rows.applyCommit c).HasVisit w := by
  cases hc with
  | createGroup | updateGroup | deleteGroup | createTemplate | updateTemplate
  | setTemplateActive | deleteTemplate => simp at hw
  | reserve | change =>
    cases saved_of_start hw
    exact hasVisit_visitSaved.mpr (.inl rfl)
  | amend =>
    cases saved_of_amend hw
    exact hasVisit_visitSaved.mpr (.inl rfl)
  | @book reference actionedBy existing draft stored incomplete bookable drafted left applies =>
    rw [applyCommit_append]
    refine hasVisit_visitSaved.mpr ?_
    rcases saved_of_book hw with ⟨old, hold, rfl⟩ | rfl
    · -- what is superseded was booked, so it is not the draft
      obtain ⟨hrow, -, hbooked⟩ := h.sound.of_bookedVisit? hold
      obtain ⟨hdraftrow, hdraft, -⟩ := h.sound.of_draft? drafted
      refine .inr ⟨fun hid => ?_, ?_⟩
      · cases hrow.unique hdraftrow hid
        rw [Visit.isDraft_of_isBooked hbooked] at hdraft
        cases hdraft
      · rw [hold]
        exact hasVisit_visitSaved.mpr (.inl rfl)
    · exact .inl rfl
  | @cancel bookingReference c target outcome short live =>
    have hrow := (h.sound.of_cancellationTarget live).1
    cases saved_of_cancel h hrow hw
    obtain ⟨audit, hrecords⟩ := cancelRecords_eq h bookingReference hrow c
    rw [hrecords, applyCommit_cons]
    refine hasVisit_of_untouched (hasVisit_visitSaved.mpr (.inl rfl))
      (fun v hv => absurd hv (no_visit_behind_target d _ _ _ _ v)) fun hgone => ?_
    obtain ⟨v, -, -, hid, hother, -⟩ := pending_of_visitDeleted h hgone
    exact hother hid
  | discard => exact absurd hw (no_visit_discardRecords _ _ _ _ w)
  | expire => exact absurd hw (no_visit_discardRecords _ _ _ _ w)

/-- A visit that is booked or cancelled stays as it is, or it was booked and ends. -/
theorem settled_of_writes (h : d.store.Linked) {a : Action} {c : Commit} (hc : d.Writes a c)
    {v : Visit} (hv : d.store.rows.HasVisit v) (hsettled : v.isDraft = false) :
    (d.store.rows.applyCommit c).HasVisit v ∨ v.isBooked = true ∧ ∃ outcome notes,
      .visitSaved (v.ended outcome notes d.now) ∈ c ∧
        (d.store.rows.applyCommit c).HasVisit (v.ended outcome notes d.now) := by
  by_cases hsaved : ∃ w, .visitSaved w ∈ c ∧ w.id = v.id
  · obtain ⟨w, hw, hid⟩ := hsaved
    cases saves_of_writes h hc hw with
    | new next draft booking changes =>
      have hbelow := h.below v hv
      rw [← hid, next] at hbelow
      exact absurd hbelow (UInt64.lt_irrefl _)
    | renewed stored draft hsame =>
      cases stored.unique hv (hsame.symm.trans hid)
      rw [hsettled] at draft
      cases draft
    | ended stored live outcome notes end_eq =>
      subst end_eq
      cases stored.unique hv hid
      refine .inr ⟨?_, outcome, notes, hw, hasVisit_of_saved h hc hw⟩
      cases hs : v.status <;>
        simp_all [Visit.isBooked, Visit.isCancelled, Visit.isDraft]
  · refine .inl (hasVisit_of_untouched hv (fun w hw hid => hsaved ⟨w, hw, hid⟩) fun hi => ?_)
    obtain ⟨w, hw, hdraft, hid⟩ := draft_of_writes h hc hi
    cases hw.unique hv hid
    rw [hsettled] at hdraft
    cases hdraft

/-- A completed application stays as it is. -/
theorem completed_of_writes (h : d.store.Linked) {a : Action} {c : Commit} (hc : d.Writes a c)
    {reference : Reference} {x : Application}
    (hx : d.store.rows.applications[reference]? = some x) (hdone : x.completed = true) :
    (d.store.rows.applyCommit c).applications[reference]? = some x := by
  have hsame : (d.store.rows.applyCommit c).applications[reference]? =
      d.store.rows.applications[reference]? :=
    sameAt_applyCommit (k := .application reference) _ fun r hr hkey => by
      rw [open_of_writes h hc hr (touchesApplication_of_key hkey) hx] at hdone
      cases hdone
  rw [hsame, hx]

end Desk

end PrisonVisits
