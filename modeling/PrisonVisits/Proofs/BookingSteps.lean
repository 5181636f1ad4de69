import PrisonVisits.Proofs.ApplicationTurns
import PrisonVisits.Proofs.Backing
import PrisonVisits.Proofs.DrawnReferences
import PrisonVisits.Proofs.RowKeys
import PrisonVisits.Proofs.Seats

/-! # Steps of a booking

Amending, booking, cancelling and discarding go on with what a booking has already. All that such a
step writes is about rows of its booking, rows that stay are still of the booking afterwards, and no
application is new. What the step does to a draft it does to the draft of an application of its own
booking, and the visit that gives way to a newly booked one is a visit of the same booking, so the
rows of all other bookings are left alone. -/

namespace PrisonVisits

open Rows

/-- A request that goes on with a booking. -/
inductive BookingStep where
  | amend (application : Reference) (amendment : Amendment)
  | book (application : Reference) (actionedBy : String)
  | cancel (bookingReference : Reference) (cancellation : Cancellation)
  | discard (application : Reference) (actionedBy : String)

namespace BookingStep

/-- What the step gives back if it is not refused. -/
@[reducible] def Answer : BookingStep → Type
  | .amend .. => Application
  | .book .. => Visit
  | .cancel .. => Option Visit
  | .discard .. => Unit

def action : BookingStep → Action
  | .amend application amendment => .amend application amendment
  | .book application actionedBy => .book application actionedBy
  | .cancel bookingReference cancellation => .cancel bookingReference cancellation
  | .discard application actionedBy => .discard application actionedBy

/-- The booking that the step goes on with; that of an application is known if the application is
stored. -/
def booking? (s : BookingStep) (store : Store) : Option Reference :=
  match s with
  | .amend application _ | .book application _ | .discard application _ =>
    (store.application? application).map (·.bookingReference)
  | .cancel bookingReference _ => some bookingReference

/-- The step is no amendment of template, date or restriction. -/
def StaysPut (s : BookingStep) (store : Store) : Prop :=
  match s with
  | .amend application m => ∀ a, store.application? application = some a →
      Desk.amendedSlot a m = ⟨a.sessionTemplateReference, a.sessionDate, a.restriction⟩
  | _ => True

end BookingStep

namespace Desk

/-- The desk takes the step. -/
def takeStep (d : Desk) : (s : BookingStep) → Except Refusal s.Answer × Desk
  | .amend application m => d.amend application m
  | .book application actionedBy => d.book application actionedBy
  | .cancel bookingReference c => d.cancel bookingReference c
  | .discard application actionedBy => d.discard application actionedBy

def planStep (d : Desk) : (s : BookingStep) → Except Refusal (Transition s.Answer)
  | .amend application m => d.planAmend application m
  | .book application actionedBy => d.planBook application actionedBy
  | .cancel bookingReference c => d.planCancel bookingReference c
  | .discard application actionedBy => d.planDiscard application actionedBy

variable {d : Desk} {s : BookingStep}

theorem takeStep_perform (d : Desk) (s : BookingStep) : (d.takeStep s).2 = d.perform s.action := by
  cases s <;> rfl

theorem answer_takeStep (d : Desk) (s : BookingStep) :
    (d.takeStep s).1 = (d.planStep s).map (·.answer) := by
  have hplan : d.takeStep s = d.transact (liftM (d.planStep s)) := by cases s <;> rfl
  rw [hplan, answer_transact, Plan.run_lift]

theorem plan?_action (d : Desk) (s : BookingStep) :
    d.plan? s.action = some (Transition.silent <$> liftM (d.planStep s)) := by
  cases s <;> rfl

theorem granted_step (d : Desk) (s : BookingStep) :
    d.granted (Transition.silent <$> liftM (d.planStep s)) =
      ((d.planStep s).map Transition.silent).toOption := by
  rw [granted, run_silent, Plan.run_lift]

/-- What a step writes can be told from its plan. -/
theorem recordsOf_congr {e : Desk} (h : e.planStep s = d.planStep s) :
    e.recordsOf s.action = d.recordsOf s.action := by
  have hgranted : ∀ d : Desk, d.recordsOf s.action =
      (((d.planStep s).map Transition.silent).toOption.toList.map (·.records)).flatten := by
    intro d
    rw [recordsOf, commitsOf_of_plan (plan?_action d s), List.flatten_filter_not_isEmpty,
      granted_step]
  rw [hgranted, hgranted, h]

end Desk

/-! ## Records about a booking -/

/-- The booking that a row belongs to. -/
def Rows.bookingAt (t : Rows) : RowKey → Option Reference
  | .application reference => (t.applications[reference]?).map (·.bookingReference)
  | .visit id => (t.visits[id]?).map (·.reference)
  | .trail bookingReference => some bookingReference
  | .group _ | .template _ => none

/-- The record changes or deletes a row of the booking or adds to its audits. A row that it changes
stays with the booking, and a visit with its application. -/
def Record.Concerns (t : Rows) (booking : Reference) : Record → Prop
  | .applicationSaved a => a.bookingReference = booking ∧
      t.bookingAt (.application a.reference) = some booking
  | .applicationDeleted reference => t.bookingAt (.application reference) = some booking
  | .visitSaved v => v.reference = booking ∧ ∃ old, t.HasVisit old ∧ old.id = v.id ∧
      old.reference = booking ∧ old.applicationReference = v.applicationReference
  | .visitDeleted id => t.bookingAt (.visit id) = some booking
  | .audit a => a.bookingReference = booking
  | .groupSaved _ | .groupDeleted _ | .templateSaved _ | .templateDeleted _ => False

/-- The tables have the same visits, applications and audits of the booking. -/
structure Rows.SameUnder (t t' : Rows) (booking : Reference) : Prop where
  visits : ∀ v, v.reference = booking → (t.HasVisit v ↔ t'.HasVisit v)
  applications : ∀ a : Application, a.bookingReference = booking →
    (t.applications[a.reference]? = some a ↔ t'.applications[a.reference]? = some a)
  audits : t.audits[booking]? = t'.audits[booking]?

section

variable {t t' : Rows} {booking other : Reference} {r r' : Record} {c : Commit}

theorem Rows.HasVisit.bookingAt {v : Visit} (h : t.HasVisit v) :
    t.bookingAt (.visit v.id) = some v.reference := by
  rw [HasVisit] at h
  rw [Rows.bookingAt, h, Option.map_some]

theorem Record.Concerns.bookingAt (h : r.Concerns t booking) :
    t.bookingAt r.key = some booking := by
  cases r with
  | groupSaved | groupDeleted | templateSaved | templateDeleted => cases h
  | applicationSaved a => exact h.2
  | applicationDeleted | visitDeleted => exact h
  | visitSaved v =>
    obtain ⟨-, old, hold, hid, hbooking, -⟩ := h
    have hat := hold.bookingAt
    rwa [hid, hbooking] at hat
  | audit a => exact congrArg some h

theorem Record.Concerns.ofBooking (h : r.Concerns t booking) : r.ofBooking = true := by
  cases r with
  | groupSaved | groupDeleted | templateSaved | templateDeleted => cases h
  | applicationSaved | applicationDeleted | visitSaved | visitDeleted | audit => rfl

/-- Records about different bookings are about different things. -/
theorem Record.Concerns.key_ne (h : r.Concerns t booking) (h' : r'.Concerns t other)
    (hne : booking ≠ other) : r.key ≠ r'.key := by
  intro hkey
  have hboth := h.bookingAt
  rw [hkey, h'.bookingAt] at hboth
  exact hne (Option.some.inj hboth).symm

namespace Rows

theorem SameUnder.symm (h : t.SameUnder t' booking) : t'.SameUnder t booking :=
  ⟨fun v hv => (h.visits v hv).symm, fun a ha => (h.applications a ha).symm, h.audits.symm⟩

/-- Records about other bookings leave the rows of this one alone. -/
theorem sameUnder_applyCommit (hc : ∀ r ∈ c, ∃ other, other ≠ booking ∧ r.Concerns t other) :
    t.SameUnder (t.applyCommit c) booking := by
  have hkept : ∀ {k}, t.bookingAt k = some booking → (t.applyCommit c).SameAt t k := by
    intro k hk
    refine sameAt_applyCommit t fun r hr hkey => ?_
    obtain ⟨other, hne, hconcerns⟩ := hc r hr
    have hboth := hconcerns.bookingAt
    rw [hkey, hk] at hboth
    exact hne (Option.some.inj hboth).symm
  refine ⟨fun v hv => ⟨fun h => ?_, fun h => ?_⟩, fun a ha => ⟨fun h => ?_, fun h => ?_⟩, ?_⟩
  · have hsame : (t.applyCommit c).visits[v.id]? = t.visits[v.id]? :=
      hkept (k := .visit v.id) (by rw [h.bookingAt, hv])
    rwa [HasVisit, hsame]
  · refine hasVisit_applyCommit (q := fun w => w.reference = booking → t.HasVisit w)
      (fun w hw _ => hw) (fun w hw hown => ?_) h hv
    obtain ⟨other, hne, hother, -⟩ := hc _ hw
    exact absurd (hother.symm.trans hown) hne
  · have hsame : (t.applyCommit c).applications[a.reference]? = t.applications[a.reference]? :=
      hkept (k := .application a.reference) (by rw [bookingAt, h, Option.map_some, ha])
    rwa [hsame]
  · rcases application_of_applyCommit h with ⟨hsaved, -⟩ | ⟨hstored, -⟩
    · obtain ⟨other, hne, hother, -⟩ := hc _ hsaved
      exact absurd (hother.symm.trans ha) hne
    · exact hstored
  · exact (hkept (k := .trail booking) rfl).symm

/-- Records about bookings make no new application. -/
theorem absent_applyCommit (hc : ∀ r ∈ c, ∃ booking, r.Concerns t booking) {reference : Reference}
    (hnone : t.applications[reference]? = none) :
    (t.applyCommit c).applications[reference]? = none := by
  refine Option.eq_none_iff_forall_ne_some.mpr fun a ha => ?_
  rcases application_of_applyCommit ha with ⟨hsaved, rfl⟩ | ⟨hstored, -⟩
  · obtain ⟨booking, -, hat⟩ := hc _ hsaved
    rw [bookingAt, hnone] at hat
    cases hat
  · rw [hnone] at hstored
    cases hstored

end Rows

end

/-! ## What the steps write -/

namespace Desk

variable {d : Desk} {reference : Reference} {existing : Application} {draft : Visit}

theorem bookingAt_application (h : d.store.Linked)
    (hstored : d.store.application? reference = some existing) :
    d.store.rows.bookingAt (.application existing.reference) = some existing.bookingReference := by
  have hkey : existing.reference = reference := h.sound.keyed.applications _ _ hstored
  have hrow : d.store.rows.applications[reference]? = some existing := hstored
  rw [hkey, Rows.bookingAt, hrow, Option.map_some]

theorem concerns_discardRecords (h : d.store.Linked)
    (hstored : d.store.application? reference = some existing) {draft : Option Visit}
    (hdraft : ∀ v, draft = some v →
      d.store.rows.HasVisit v ∧ v.reference = existing.bookingReference)
    (actionedBy : String) (now : Moment) : ∀ r ∈ existing.discardRecords draft actionedBy now,
      r.Concerns d.store.rows existing.bookingReference := by
  intro r hr
  simp only [Application.discardRecords, List.cons_append, List.mem_cons, List.mem_append,
    List.mem_map, Option.mem_toList, List.not_mem_nil, or_false] at hr
  rcases hr with rfl | ⟨v, hv, rfl⟩ | rfl
  · exact bookingAt_application h hstored
  · obtain ⟨hrow, hbooking⟩ := hdraft v (Option.filter_eq_some_iff.mp hv).1
    exact hrow.bookingAt.trans (congrArg some hbooking)
  · exact rfl

theorem concerns_amend (h : d.store.Linked)
    (hstored : d.store.application? reference = some existing)
    (hdrafted : d.store.draft? reference = some draft) {m : Amendment} {placed : Application}
    {moved : Visit} {slot : Slot}
    (hplaced : d.placeAmended (m.people existing) draft slot = .ok (placed, moved)) :
    ∀ r ∈ ([.applicationSaved (placed.touched d.now),
        .visitSaved ((placed.touched d.now).bring moved d.now),
        (placed.touched d.now).audit .amendedApplication m.actionedBy d.now] : Commit),
      r.Concerns d.store.rows existing.bookingReference := by
  have hsame := sameRows_of_placeAmended hplaced
  have hown := (h.drafts hstored hdrafted).booking
  simp only [List.forall_mem_cons, List.not_mem_nil, false_implies, implies_true, and_true]
  refine ⟨⟨hsame.booking, ?_⟩, ⟨hsame.draftBooking.trans hown, draft,
    (h.sound.of_draft? hdrafted).1, hsame.id.symm, hown, hsame.application.symm⟩, hsame.booking⟩
  change d.store.rows.bookingAt (.application placed.reference) = _
  rw [hsame.reference]
  exact bookingAt_application h hstored

theorem concerns_book (h : d.store.Linked)
    (hstored : d.store.application? reference = some existing)
    (hdrafted : d.store.draft? reference = some draft) (actionedBy : String) :
    ∀ r ∈ (d.store.bookedVisit? existing.bookingReference).toList.flatMap
          (supersedeRecords · actionedBy d.now) ++
        [.visitSaved (existing.booked draft d.now), .applicationSaved (existing.complete d.now),
          existing.bookedAudit (existing.booked draft d.now) actionedBy d.now],
      r.Concerns d.store.rows existing.bookingReference := by
  have hown := (h.drafts hstored hdrafted).booking
  refine List.forall_mem_append.mpr ⟨fun r hr => ?_, ?_⟩
  · obtain ⟨old, hold, hr⟩ := List.mem_flatMap.mp hr
    obtain ⟨hrow, hbooking, -⟩ := h.sound.of_bookedVisit? (Option.mem_toList.mp hold)
    simp only [supersedeRecords, List.mem_cons, List.not_mem_nil, or_false] at hr
    rcases hr with rfl | rfl
    · exact ⟨hbooking, old, hrow, rfl, hbooking, rfl⟩
    · exact hbooking
  · simp only [List.forall_mem_cons, List.not_mem_nil, false_implies, implies_true, and_true]
    have hat := bookingAt_application h hstored
    exact ⟨⟨hown, draft, (h.sound.of_draft? hdrafted).1, rfl, hown, rfl⟩, ⟨rfl, hat⟩, rfl⟩

theorem concerns_cancelRecords (h : d.store.Linked) {booking : Reference} {target : Visit}
    (htarget : d.store.rows.HasVisit target) (hown : target.reference = booking)
    (c : Cancellation) : ∀ r ∈ d.cancelRecords (d.store.visitsForReference booking) target c,
      r.Concerns d.store.rows booking := by
  rw [cancelRecords_eq_append h booking htarget c]
  refine List.forall_mem_cons.mpr ⟨⟨hown, target, htarget, rfl, hown, rfl⟩,
    List.forall_mem_append.mpr ⟨fun r hr => ?_, List.forall_mem_cons.mpr ⟨hown, fun r hr => ?_⟩⟩⟩
  · split at hr
    · next hdraft =>
      obtain ⟨a, ha, -, hdrafts⟩ := h.rows.application target htarget hdraft
      rw [List.mem_singleton.mp hr]
      change d.store.rows.bookingAt (.application target.applicationReference) = _
      rw [Rows.bookingAt, ha, Option.map_some, ← hdrafts.booking, hown]
    · cases hr
  · obtain ⟨v, hv, hr⟩ := List.mem_flatMap.mp hr
    obtain ⟨⟨hrow, hreference⟩, hdraft, -⟩ := (mem_pendingOf h.sound).mp hv
    obtain ⟨a, ha, -, hrecords⟩ := discardPending_eq_discardRecords h hrow hdraft c.actionedBy
    obtain ⟨b, hb, -, hdrafts⟩ := h.rows.application v hrow hdraft
    cases ha.symm.trans hb
    have hbooking : a.bookingReference = booking := hdrafts.booking.symm.trans hreference
    rw [hrecords] at hr
    rw [← hbooking]
    refine concerns_discardRecords h ha (fun w hw => ?_) _ _ r hr
    cases hw
    exact ⟨hrow, hdrafts.booking⟩

/-- All that a step writes is about its booking. -/
theorem concerns_of_writes (h : d.store.Linked) {s : BookingStep} {c : Commit}
    (hw : d.Writes s.action c) :
    ∃ booking, s.booking? d.store = some booking ∧ ∀ r ∈ c, r.Concerns d.store.rows booking := by
  cases s with
  | amend reference m =>
    cases hw with
    | amend stored incomplete drafted counts placing =>
      exact ⟨_, by rw [BookingStep.booking?, stored]; rfl, concerns_amend h stored drafted placing⟩
  | book reference actionedBy =>
    cases hw with
    | book stored incomplete bookable drafted left applies =>
      exact ⟨_, by rw [BookingStep.booking?, stored]; rfl, concerns_book h stored drafted _⟩
  | cancel booking c =>
    cases hw with
    | cancel outcome short live =>
      obtain ⟨hrow, hown, -⟩ := h.sound.of_cancellationTarget live
      exact ⟨booking, rfl, concerns_cancelRecords h hrow hown c⟩
  | discard reference actionedBy =>
    cases hw with
    | discard stored incomplete =>
      refine ⟨_, by rw [BookingStep.booking?, stored]; rfl,
        concerns_discardRecords h stored (fun v hv => ?_) _ _⟩
      exact ⟨(h.sound.of_draft? hv).1, (h.drafts stored hv).booking⟩

/-- A visit that a step saves is not one that it deletes. -/
theorem not_deleted_of_writes (h : d.store.Linked) {s : BookingStep} {c : Commit}
    (hw : d.Writes s.action c) {v : Visit} (hv : .visitSaved v ∈ c) : .visitDeleted v.id ∉ c := by
  cases s with
  | amend reference m =>
    cases hw with
    | amend => simp [Application.audit]
  | book reference actionedBy =>
    cases hw with
    | book => simp [supersedeRecords, Visit.cancelledAudit, Application.bookedAudit]
  | cancel booking c =>
    cases hw with
    | cancel outcome short live =>
      have htarget := (h.sound.of_cancellationTarget live).1
      obtain ⟨audit, hrecords⟩ := cancelRecords_eq h booking htarget c
      rw [hrecords] at hv ⊢
      rcases List.mem_cons.mp hv with hv | hv
      · cases hv
        intro hdeleted
        simp only [List.mem_cons, List.mem_append, List.mem_flatMap, reduceCtorEq,
          false_or] at hdeleted
        rcases hdeleted with hdeleted | ⟨w, hw, hdeleted⟩
        · split at hdeleted <;> simp at hdeleted
        · obtain ⟨⟨hrow, -⟩, hdraft, hne⟩ := (mem_pendingOf h.sound).mp hw
          obtain ⟨audit, hrecords⟩ := discardPending_eq h hrow hdraft c.actionedBy
          simp [hrecords] at hdeleted
          exact hne hdeleted.symm
      · exact absurd hv (no_visit_behind_target d _ _ _ _ v)
  | discard reference actionedBy =>
    cases hw with
    | discard => exact absurd hv (no_visit_discardRecords _ _ _ _ v)

end Desk

end PrisonVisits
