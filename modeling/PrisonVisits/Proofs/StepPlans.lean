import PrisonVisits.Proofs.BookingSteps

/-! # What a step of a booking reads

A step reads the rows of its booking, and beside them templates, groups, the clock and the directory
of prisoners. An amendment that stays in its slot counts no seats. So two desks at which all of this
is the same plan the same. -/

namespace PrisonVisits

open Rows

namespace Store

variable {s t : Store} {booking reference : Reference} {a : Application}

/-! ## The rows of a booking -/

theorem application?_of_sameUnder (hkeyed : s.rows.Keyed)
    (hsame : s.rows.SameUnder t.rows a.bookingReference)
    (ha : s.application? reference = some a) : t.application? reference = some a := by
  have hkey : a.reference = reference := hkeyed.applications _ _ ha
  rw [← hkey] at ha ⊢
  exact (hsame.applications a rfl).mp ha

theorem draft?_of_sameUnder (hs : s.Linked) (ht : t.Linked)
    (hsame : s.rows.SameUnder t.rows a.bookingReference) (ha : s.application? reference = some a)
    {v : Visit} (hv : s.draft? reference = some v) : t.draft? reference = some v := by
  obtain ⟨hrow, hdraft, rfl⟩ := hs.sound.of_draft? hv
  exact ht.draft?_eq ((hsame.visits v (hs.drafts ha hv).booking).mp hrow) hdraft

theorem draft?_eq_of_sameUnder (hs : s.Linked) (ht : t.Linked)
    (hsame : s.rows.SameUnder t.rows a.bookingReference) (ha : s.application? reference = some a) :
    t.draft? reference = s.draft? reference := by
  have ha' := application?_of_sameUnder hs.sound.keyed hsame ha
  exact Option.ext fun v =>
    ⟨draft?_of_sameUnder ht hs hsame.symm ha', draft?_of_sameUnder hs ht hsame ha⟩

theorem visitsForReference_of_sameUnder (hs : s.Sound) (ht : t.Sound)
    (hsame : s.rows.SameUnder t.rows booking) :
    t.visitsForReference booking = s.visitsForReference booking := by
  have hascending : ∀ {s : Store}, s.Sound →
      Table.Ascending Visit.id (s.visitsForReference booking) := fun h => by
    rw [h.visitsForReference_eq]
    exact h.keyed.visits.ascending_values.sublist List.filter_sublist
  refine (hascending ht).eq_of_mem_iff (hascending hs) fun v => ?_
  rw [ht.mem_visitsForReference, hs.mem_visitsForReference]
  exact and_congr_left fun hv => (hsame.visits v hv).symm

theorem bookedVisit?_of_sameUnder (hs : s.Sound) (ht : t.Sound)
    (hsame : s.rows.SameUnder t.rows booking) :
    t.bookedVisit? booking = s.bookedVisit? booking := by
  rw [bookedVisit?, bookedVisit?, visitsForReference_of_sameUnder hs ht hsame]

/-- The application of a draft of the booking. -/
theorem application?_of_draft (hs : s.Linked) {v : Visit} (hrow : s.rows.HasVisit v)
    (hdraft : v.isDraft = true) (hsame : s.rows.SameUnder t.rows v.reference) :
    t.application? v.applicationReference = s.application? v.applicationReference := by
  obtain ⟨a, ha, -, hdrafts⟩ := hs.rows.application v hrow hdraft
  have hstored : s.application? v.applicationReference = some a := ha
  rw [hdrafts.booking] at hsame
  rw [hstored, application?_of_sameUnder hs.sound.keyed hsame hstored]

/-! ## Templates and groups -/

theorem eligibilityOf_congr (h : t.groups = s.groups) : t.eligibilityOf = s.eligibilityOf := by
  have hresolve : t.resolve = s.resolve := by
    funext prisonCode kind reference
    simp only [resolve, getGroup, group?, h]
  funext T
  simp only [eligibilityOf, hresolve]

end Store

namespace Desk

/-- What the step reads is the same at both desks. -/
structure SameFor (d e : Desk) (s : BookingStep) : Prop where
  now : e.now = d.now
  prisoners : e.prisoners = d.prisoners
  groups : e.store.groups = d.store.groups
  templates : e.store.templates = d.store.templates
  unknown : ∀ reference, d.store.application? reference = none →
    e.store.application? reference = none
  own : ∀ booking, s.booking? d.store = some booking →
    d.store.rows.SameUnder e.store.rows booking

variable {d e : Desk} {reference : Reference}

/-- A step of a stored application finds the rows of its booking as they are. -/
theorem SameFor.own_of_stored {s : BookingStep} (h : d.SameFor e s)
    (hs : s.booking? d.store = (d.store.application? reference).map (·.bookingReference))
    {a : Application} (hstored : d.store.application? reference = some a) :
    d.store.rows.SameUnder e.store.rows a.bookingReference :=
  h.own _ (by rw [hs, hstored, Option.map_some])

theorem confirmStillApplies_congr {s : BookingStep} (h : d.SameFor e s) :
    e.confirmStillApplies = d.confirmStillApplies := by
  funext a
  simp only [confirmStillApplies, Store.getTemplate, Store.template?, prisoner, checkEligible,
    h.templates, h.prisoners, Store.eligibilityOf_congr h.groups]

theorem planAmend_congr (hd : d.store.Linked) (he : e.store.Linked) {m : Amendment}
    (h : d.SameFor e (.amend reference m))
    (hstays : (BookingStep.amend reference m).StaysPut d.store) :
    e.planAmend reference m = d.planAmend reference m := by
  cases hstored : d.store.application? reference with
  | none => simp only [planAmend, Store.getApplication, hstored, h.unknown _ hstored, found]; rfl
  | some a =>
    have hsame := h.own_of_stored rfl hstored
    have hplace : ∀ (d : Desk) draft,
        d.placeAmended (m.people a) draft (amendedSlot a m) = .ok (m.people a, draft) :=
      fun _ _ => if_pos (hstays a hstored)
    simp only [planAmend, Store.getApplication, Store.getDraft, hstored, hplace, h.now,
      Store.application?_of_sameUnder hd.sound.keyed hsame hstored,
      Store.draft?_eq_of_sameUnder hd he hsame hstored, found, ok_bind]

theorem planBook_congr (hd : d.store.Linked) (he : e.store.Linked) {actionedBy : String}
    (h : d.SameFor e (.book reference actionedBy)) :
    e.planBook reference actionedBy = d.planBook reference actionedBy := by
  cases hstored : d.store.application? reference with
  | none => simp only [planBook, Store.getApplication, hstored, h.unknown _ hstored, found]; rfl
  | some a =>
    have hsame := h.own_of_stored rfl hstored
    simp only [planBook, Store.getApplication, Store.getDraft, hstored, h.now,
      Store.application?_of_sameUnder hd.sound.keyed hsame hstored,
      Store.draft?_eq_of_sameUnder hd he hsame hstored, found, ok_bind,
      Store.bookedVisit?_of_sameUnder hd.sound he.sound hsame, confirmStillApplies_congr h]

theorem planDiscard_congr (hd : d.store.Linked) (he : e.store.Linked) {actionedBy : String}
    (h : d.SameFor e (.discard reference actionedBy)) :
    e.planDiscard reference actionedBy = d.planDiscard reference actionedBy := by
  cases hstored : d.store.application? reference with
  | none => simp only [planDiscard, Store.getApplication, hstored, h.unknown _ hstored, found]; rfl
  | some a =>
    have hsame := h.own_of_stored rfl hstored
    simp only [planDiscard, Store.getApplication, hstored, h.now, discardRecords_draft?,
      Store.application?_of_sameUnder hd.sound.keyed hsame hstored,
      Store.draft?_eq_of_sameUnder hd he hsame hstored, found, ok_bind]

theorem cancelRecords_congr (hd : d.store.Linked) {booking : Reference} (hnow : e.now = d.now)
    (hsame : d.store.rows.SameUnder e.store.rows booking) {target : Visit}
    (htarget : d.store.rows.HasVisit target) (hown : target.reference = booking)
    (c : Cancellation) : e.cancelRecords (d.store.visitsForReference booking) target c =
      d.cancelRecords (d.store.visitsForReference booking) target c := by
  have happlication : ∀ v, d.store.rows.HasVisit v → v.reference = booking → v.isDraft = true →
      e.store.application? v.applicationReference = d.store.application? v.applicationReference :=
    fun v hrow hreference hdraft =>
      Store.application?_of_draft hd hrow hdraft (hreference ▸ hsame)
  have hknown : (target.isDraft && (e.store.application? target.applicationReference).isSome) =
      (target.isDraft && (d.store.application? target.applicationReference).isSome) := by
    cases hdraft : target.isDraft with
    | false => rfl
    | true => rw [happlication target htarget hown hdraft]
  have hpending : ∀ v ∈ d.pendingOf booking target,
      e.discardPending v c.actionedBy = d.discardPending v c.actionedBy := by
    intro v hv
    obtain ⟨⟨hrow, hreference⟩, hdraft, -⟩ := (mem_pendingOf hd.sound).mp hv
    rw [discardPending, discardPending, happlication v hrow hreference hdraft, hnow]
  have hdiscards := List.flatMap_congr hpending
  unfold pendingOf at hdiscards
  simp only [cancelRecords, hknown, hdiscards, cancelledTarget, hnow]

theorem planCancel_congr (hd : d.store.Linked) (he : e.store.Linked) {booking : Reference}
    {c : Cancellation} (h : d.SameFor e (.cancel booking c)) :
    e.planCancel booking c = d.planCancel booking c := by
  have hsame := h.own booking rfl
  have hvisits := Store.visitsForReference_of_sameUnder hd.sound he.sound hsame
  cases htarget : cancellationTarget (d.store.visitsForReference booking) with
  | none => simp only [planCancel, hvisits, htarget]
  | some target =>
    obtain ⟨hrow, hown, -⟩ := hd.sound.of_cancellationTarget htarget
    simp only [planCancel, hvisits, htarget, cancelledTarget, h.now,
      cancelRecords_congr hd h.now hsame hrow hown]

/-- Where what a step reads is the same, it comes to the same. -/
theorem planStep_congr (hd : d.store.Linked) (he : e.store.Linked) {s : BookingStep}
    (h : d.SameFor e s) (hstays : s.StaysPut d.store) : e.planStep s = d.planStep s := by
  cases s with
  | amend => exact planAmend_congr hd he h hstays
  | book => exact planBook_congr hd he h
  | cancel => exact planCancel_congr hd he h
  | discard => exact planDiscard_congr hd he h

end Desk

end PrisonVisits
