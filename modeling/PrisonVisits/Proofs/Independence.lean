import PrisonVisits.Proofs.Atomicity
import PrisonVisits.Proofs.StepPlans
import PrisonVisits.Proofs.Thinning

/-! # Bookings do not get into each other's way

Two steps of different bookings answer the same whichever comes first, and leave the same store
behind: what one of them writes is nothing that the other reads or writes. Each leaves the rows of
all other bookings as they were. -/

namespace PrisonVisits

open Rows

/-- The steps go on with different bookings. A step of an application that is not stored goes on
with none. -/
def BookingStep.Apart (first second : BookingStep) (store : Store) : Prop :=
  ∀ booking, first.booking? store = some booking → second.booking? store ≠ some booking

theorem BookingStep.Apart.symm {first second : BookingStep} {store : Store}
    (h : first.Apart second store) : second.Apart first store :=
  fun booking hsecond hfirst => h booking hfirst hsecond

namespace Desk

variable {d : Desk} {first second s : BookingStep}

/-! ## One step -/

theorem writes_of_step (d : Desk) (s : BookingStep) :
    d.recordsOf s.action = [] ∨ d.Writes s.action (d.recordsOf s.action) := by
  rcases d.recordsOf_cases s.action with hnil | hw | hexpire
  · exact .inl hnil
  · exact .inr hw
  · cases s <;> cases hexpire

theorem store_takeStep (hids : d.store.nextVisitId + 1 ≠ 0) (s : BookingStep) :
    (d.takeStep s).2.store = d.store.applyCommit (d.recordsOf s.action) := by
  rw [takeStep_perform]
  exact store_perform (by cases s <;> exact nofun) hids

theorem rows_takeStep (d : Desk) (s : BookingStep) :
    (d.takeStep s).2.store.rows = d.store.rows.applyCommit (d.recordsOf s.action) := by
  rw [takeStep_perform]
  exact rows_perform (by cases s <;> exact nofun)

theorem around_takeStep (d : Desk) (s : BookingStep) : (d.takeStep s).2.around = d.around := by
  rw [takeStep_perform, perform_of_plan (plan?_action d s)]
  cases hgranted : d.granted (Transition.silent <$> liftM (d.planStep s)) with
  | none =>
    obtain ⟨references, hrefused⟩ := transact_of_refused hgranted
    rw [hrefused]
    rfl
  | some t =>
    obtain ⟨references, hdone⟩ := transact_of_granted hgranted
    rw [hdone]
    cases t.records <;> rfl

theorem linked_takeStep (h : d.store.Linked) (hids : d.store.nextVisitId + 1 ≠ 0)
    (s : BookingStep) : (d.takeStep s).2.store.Linked := by
  rw [store_takeStep hids]
  rcases d.writes_of_step s with hnil | hw
  · rw [hnil]
    exact h
  · exact linked_of_writes h h rfl hids hw

/-- All that a step writes is about its booking. -/
theorem concerns_of_step (h : d.store.Linked) (s : BookingStep) : ∀ r ∈ d.recordsOf s.action,
    ∃ booking, s.booking? d.store = some booking ∧ r.Concerns d.store.rows booking := by
  intro r hr
  rcases d.writes_of_step s with hnil | hw
  · rw [hnil] at hr
    cases hr
  · obtain ⟨booking, hbooking, hc⟩ := concerns_of_writes h hw
    exact ⟨booking, hbooking, hc r hr⟩

theorem renews_of_step (h : d.store.Linked) (s : BookingStep) :
    d.store.rows.Renews (d.recordsOf s.action) where
  ofBooking := by
    intro r hr
    obtain ⟨booking, -, hc⟩ := concerns_of_step h s r hr
    exact hc.ofBooking
  renewed := by
    intro v hv
    obtain ⟨booking, -, -, old, hold, hid, -, happlication⟩ := concerns_of_step h s _ hv
    exact ⟨old, hold, hid, happlication⟩
  kept := by
    intro v hv
    rcases d.writes_of_step s with hnil | hw
    · rw [hnil]
      exact List.not_mem_nil
    · exact not_deleted_of_writes h hw hv

theorem thinned_takeStep (h : d.store.Linked) (hids : d.store.nextVisitId + 1 ≠ 0)
    (s : BookingStep) : d.store.Thinned (d.takeStep s).2.store := by
  rw [store_takeStep hids]
  exact Store.thinned_applyCommit h.sound h.below (renews_of_step h s)

/-- A step leaves the rows of other bookings alone. -/
theorem sameUnder_takeStep (h : d.store.Linked) {booking : Reference}
    (hother : s.booking? d.store ≠ some booking) :
    d.store.rows.SameUnder (d.takeStep s).2.store.rows booking := by
  rw [rows_takeStep]
  refine sameUnder_applyCommit fun r hr => ?_
  obtain ⟨own, hown, hc⟩ := concerns_of_step h s r hr
  exact ⟨own, fun hsame => hother (by rw [hown, hsame]), hc⟩

/-! ## Two steps -/

/-- A step changes nothing that a step of another booking reads. -/
theorem sameFor_takeStep (h : d.store.Linked) (hapart : first.Apart second d.store) :
    d.SameFor (d.takeStep first).2 second where
  now := congrArg Surroundings.now (around_takeStep d first)
  prisoners := congrArg Surroundings.prisoners (around_takeStep d first)
  groups := (congrArg Rows.groups (rows_takeStep d first)).trans
    (groups_applyCommit (renews_of_step h first).ofBooking)
  templates := (congrArg Rows.templates (rows_takeStep d first)).trans
    (templates_applyCommit fun r hr =>
      r.no_template_of_ofBooking ((renews_of_step h first).ofBooking r hr))
  unknown := by
    intro reference hnone
    change (d.takeStep first).2.store.rows.applications[reference]? = none
    rw [rows_takeStep]
    refine absent_applyCommit (fun r hr => ?_) hnone
    obtain ⟨own, -, hc⟩ := concerns_of_step h first r hr
    exact ⟨own, hc⟩
  own := fun booking hbooking => sameUnder_takeStep h fun hsame => hapart booking hsame hbooking

theorem SameFor.booking?_eq {e : Desk} (h : d.SameFor e s) (hkeyed : d.store.rows.Keyed) :
    s.booking? e.store = s.booking? d.store := by
  cases s with
  | cancel booking c => rfl
  | amend reference _ | book reference _ | discard reference _ =>
    simp only [BookingStep.booking?]
    cases hstored : d.store.application? reference with
    | none => rw [h.unknown reference hstored]
    | some a =>
      have hsame := h.own_of_stored rfl hstored
      rw [Store.application?_of_sameUnder hkeyed hsame hstored]

/-- The step answers the same behind the other one as it does at once, and either way it leaves the
visits, applications and audits of other bookings as they are. -/
structure Undisturbed (d : Desk) (s other : BookingStep) : Prop where
  answer : ((d.takeStep other).2.takeStep s).1 = (d.takeStep s).1
  spares : ∀ booking, s.booking? d.store ≠ some booking →
    d.store.rows.SameUnder (d.takeStep s).2.store.rows booking
  sparesBehind : ∀ booking, s.booking? d.store ≠ some booking →
    (d.takeStep other).2.store.rows.SameUnder
      ((d.takeStep other).2.takeStep s).2.store.rows booking

/-- A step behind one of another booking comes to the same. -/
theorem planStep_takeStep (h : d.store.Linked) (hids : d.store.nextVisitId + 1 ≠ 0)
    (hapart : first.Apart second d.store) (hstays : second.StaysPut d.store) :
    (d.takeStep first).2.planStep second = d.planStep second :=
  planStep_congr h (linked_takeStep h hids first) (sameFor_takeStep h hapart) hstays

theorem undisturbed_of_apart (h : d.store.Linked) (hids : d.store.nextVisitId + 1 ≠ 0)
    (hapart : first.Apart second d.store) (hstays : second.StaysPut d.store) :
    d.Undisturbed second first where
  answer := by
    rw [answer_takeStep, answer_takeStep, planStep_takeStep h hids hapart hstays]
  spares := fun booking hother => sameUnder_takeStep h hother
  sparesBehind := by
    intro booking hother
    refine sameUnder_takeStep (linked_takeStep h hids first) ?_
    rw [(sameFor_takeStep h hapart).booking?_eq h.sound.keyed]
    exact hother

/-- Two steps of different bookings leave the same rows in both orders. -/
theorem rows_comm_of_apart (h : d.store.Linked) (hids : d.store.nextVisitId + 1 ≠ 0)
    (hapart : first.Apart second d.store) (hfirst : first.StaysPut d.store)
    (hsecond : second.StaysPut d.store) :
    ((d.takeStep first).2.takeStep second).2.store.rows =
      ((d.takeStep second).2.takeStep first).2.store.rows := by
  simp only [rows_takeStep, recordsOf_congr (planStep_takeStep h hids hapart hsecond),
    recordsOf_congr (planStep_takeStep h hids hapart.symm hfirst)]
  refine applyCommit_comm _ fun r hr r' hr' => ?_
  obtain ⟨booking, hbooking, hc⟩ := concerns_of_step h first r hr
  obtain ⟨booking', hbooking', hc'⟩ := concerns_of_step h second r' hr'
  refine hc.key_ne hc' fun hsame => hapart booking hbooking ?_
  rw [hbooking', hsame]

theorem store_comm_of_apart (h : d.store.Linked) (hids : d.store.nextVisitId + 1 ≠ 0)
    (hapart : first.Apart second d.store) (hfirst : first.StaysPut d.store)
    (hsecond : second.StaysPut d.store) :
    ((d.takeStep first).2.takeStep second).2.store =
      ((d.takeStep second).2.takeStep first).2.store := by
  have hboth : ∀ s s' : BookingStep, d.store.Thinned ((d.takeStep s).2.takeStep s').2.store ∧
      ((d.takeStep s).2.takeStep s').2.store.Sound := by
    intro s s'
    have hthin := thinned_takeStep h hids s
    have hlinked := linked_takeStep h hids s
    have hids' : (d.takeStep s).2.store.nextVisitId + 1 ≠ 0 := by rwa [hthin.nextVisitId]
    exact ⟨hthin.trans (thinned_takeStep hlinked hids' s'),
      (linked_takeStep hlinked hids' s').sound⟩
  exact (hboth first second).1.unique (hboth second first).1 (hboth first second).2
    (hboth second first).2 (rows_comm_of_apart h hids hapart hfirst hsecond)

/-- In every run, two steps of different bookings can change places: each answers the same and
spares the other bookings whether it comes first or second, and the stores they lead to are equal.
-/
theorem steps_independent (policy : BookingPolicy) (now : Moment)
    (prisoners : Std.ExtTreeMap String PrisonerContext) (references : ReferenceSource)
    (actions : List Action)
    (hrange : (openOn #[] policy now prisoners references).Throughout InRange actions)
    (first second : BookingStep) :
    let d := (openOn #[] policy now prisoners references).run actions
    first.StaysPut d.store → second.StaysPut d.store → first.Apart second d.store →
      d.Undisturbed first second ∧ d.Undisturbed second first ∧
      ((d.takeStep first).2.takeStep second).2.store =
        ((d.takeStep second).2.takeStep first).2.store := by
  intro d hfirst hsecond hapart
  have h : d.store.Linked := (linked_throughout hrange).last
  have hids : d.store.nextVisitId + 1 ≠ 0 := hrange.last.ids
  exact ⟨undisturbed_of_apart h hids hapart.symm hfirst,
    undisturbed_of_apart h hids hapart hsecond, store_comm_of_apart h hids hapart hfirst hsecond⟩

end Desk

namespace Sample

/-- Applications c for booking b and e for booking d hold slots of template a. -/
def twoBookings : List Action := actions ++ [.reserve reservation]

theorem along_twoBookings : desk.Along (Desk.AppendsAtMost 1000) twoBookings := by
  refine ⟨⟨nofun, ?_, ?_⟩, ⟨nofun, ?_, ?_⟩, ⟨nofun, ?_, ?_⟩, ⟨nofun, ?_, ?_⟩, trivial⟩
  all_goals decide +kernel

def illness : Cancellation := ⟨.visitorCancelled, some "ill", "clerk"⟩

end Sample

/-- One booking is booked and the other cancelled; both are granted. -/
theorem Desk.steps_independent_sample :
    let d := Sample.desk.run Sample.twoBookings
    let first := BookingStep.book "c" "clerk"
    let second := BookingStep.cancel "d" Sample.illness
    (d.takeStep first).1.toOption.isSome = true ∧ (d.takeStep second).1.toOption.isSome = true ∧
      d.Undisturbed first second ∧ d.Undisturbed second first ∧
      ((d.takeStep first).2.takeStep second).2.store =
        ((d.takeStep second).2.takeStep first).2.store := by
  intro d first second
  have hrange := throughout_inRange (m := 0) (by decide) (by decide +kernel)
    Sample.along_twoBookings (by decide)
  have hbooking : first.booking? d.store = some "b" := by decide +kernel
  have hapart : first.Apart second d.store := by
    intro booking hfirst hsecond
    have hsame : some "b" = some "d" := hbooking.symm.trans (hfirst.trans hsecond.symm)
    exact absurd hsame (by decide)
  exact ⟨by decide +kernel, by decide +kernel,
    steps_independent Sample.policy _ _ Sample.letters Sample.twoBookings hrange first second
      trivial trivial hapart⟩

end PrisonVisits
