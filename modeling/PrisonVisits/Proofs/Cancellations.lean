import PrisonVisits.Proofs.Confirmations
import PrisonVisits.Proofs.BookingSteps

/-! # Cancelling a booking

A cancellation ends one visit of a booking, the booked one or else the latest draft, and in the same
commit every draft of the booking goes with its application. So nothing of the booking holds a seat
any more, nothing else at the desk has changed, and another cancellation finds nothing to do. -/

namespace PrisonVisits

open Rows Table

namespace Rows

variable {t : Rows} {c : Commit}

/-- A commit that saves no application only takes away those that it deletes. -/
theorem applications_of_no_save (h : ∀ a, .applicationSaved a ∉ c) (reference : Reference) :
    (t.applyCommit c).applications[reference]? =
      if .applicationDeleted reference ∈ c then none else t.applications[reference]? := by
  induction c generalizing t with
  | nil => rfl
  | cons r c ih =>
    have hrest := ih (t := t.apply r) fun a ha => h a (List.mem_cons_of_mem _ ha)
    rw [applyCommit_cons, hrest]
    cases r with
    | groupSaved | groupDeleted | templateSaved | templateDeleted | visitSaved | visitDeleted
    | audit => simp [apply]
    | applicationSaved a => exact absurd List.mem_cons_self (h a)
    | applicationDeleted other =>
      simp only [apply, getElem?_erase, List.mem_cons, Record.applicationDeleted.injEq]
      by_cases hother : other = reference
      · simp [hother]
      · simp [hother, Ne.symm hother]

/-- A commit that saves no visit only takes away those that it deletes. -/
theorem visits_of_no_save (h : ∀ v, .visitSaved v ∉ c) (id : UInt64) :
    (t.applyCommit c).visits[id]? = if .visitDeleted id ∈ c then none else t.visits[id]? := by
  induction c generalizing t with
  | nil => rfl
  | cons r c ih =>
    have hrest := ih (t := t.apply r) fun a ha => h a (List.mem_cons_of_mem _ ha)
    rw [applyCommit_cons, hrest]
    cases r with
    | groupSaved | groupDeleted | templateSaved | templateDeleted | applicationSaved
    | applicationDeleted | audit => simp [apply]
    | visitSaved v => exact absurd List.mem_cons_self (h v)
    | visitDeleted other =>
      simp only [apply, getElem?_erase, List.mem_cons, Record.visitDeleted.injEq]
      by_cases hother : other = id
      · simp [hother]
      · simp [hother, Ne.symm hother]

end Rows

theorem Visit.isCancelled_iff {v : Visit} :
    v.isCancelled = true ↔ ¬v.isBooked = true ∧ ¬v.isDraft = true := by
  unfold isCancelled isBooked isDraft
  cases v.status <;> decide

/-- The outcome is one that a cancellation may have, and its text is not too long. -/
structure Cancellation.Acceptable (c : Cancellation) : Prop where
  outcome : c.outcome ≠ .supersededCancellation
  short : Text.byteLength (c.text.getD "") ≤ Limits.maxTextLength

namespace Desk

variable {d : Desk} {booking : Reference} {c : Cancellation} {target : Visit}

/-! ## The visit that is ended -/

/-- The visit is the booked one of the booking, or none is booked and it is the latest draft. -/
structure EndsWith (d : Desk) (booking : Reference) (target : Visit) : Prop where
  stored : target ∈ d.store.visitsForReference booking
  first : target.isBooked = true ∨
    (∀ v ∈ d.store.visitsForReference booking, v.isBooked = false) ∧ target.isDraft = true ∧
      ∀ v ∈ d.store.visitsForReference booking, v.isDraft = true → v.id ≤ target.id

theorem endsWith_of_cancellationTarget (h : d.store.Sound)
    (hlive : cancellationTarget (d.store.visitsForReference booking) = some target) :
    d.EndsWith booking target := by
  unfold cancellationTarget at hlive
  rw [Option.orElse_eq_orElse, Option.orElse_eq_or] at hlive
  rcases Option.or_eq_some_iff.mp hlive with hbooked | ⟨hnone, hlatest⟩
  · exact ⟨List.mem_of_find?_eq_some hbooked, .inl (List.find?_some hbooked)⟩
  · obtain ⟨hmem, hdraft⟩ := List.mem_filter.mp (List.mem_of_getLast? hlatest)
    refine ⟨hmem, .inr ⟨fun v hv => by simpa using List.find?_eq_none.mp hnone v hv, hdraft,
      fun v hv hvd => ?_⟩⟩
    have hordered : ((d.store.visitsForReference booking).filter Visit.isDraft).Pairwise
        fun v w => v.id ≤ w.id := by
      rw [h.visitsForReference_eq]
      have hascending := (h.keyed.visits.ascending_values.sublist
        (List.filter_sublist (p := fun v => decide (v.reference = booking)))).sublist
        (List.filter_sublist (p := Visit.isDraft))
      exact hascending.imp fun hlt => UInt64.le_of_lt (compareOfLessAndEq_eq_lt.mp hlt)
    obtain ⟨earlier, hdrafts⟩ := List.getLast?_eq_some_iff.mp hlatest
    have hvmem : v ∈ earlier ++ [target] := hdrafts ▸ List.mem_filter.mpr ⟨hv, hvd⟩
    rw [hdrafts, List.pairwise_append] at hordered
    rcases List.mem_append.mp hvmem with hearlier | hlast
    · exact hordered.2.2 v hearlier target (List.mem_singleton.mpr rfl)
    · rw [List.mem_singleton.mp hlast]
      exact UInt64.le_refl _

/-- A booking has no visit that a cancellation would end just if all its visits are cancelled. -/
theorem cancellationTarget_eq_none {rows : List Visit} :
    cancellationTarget rows = none ↔ ∀ v ∈ rows, v.isCancelled = true := by
  unfold cancellationTarget
  rw [Option.orElse_eq_orElse, Option.orElse_eq_or, Option.or_eq_none_iff, List.find?_eq_none,
    List.getLast?_eq_none_iff, List.filter_eq_nil_iff, ← forall₂_and]
  exact forall₂_congr fun v _ => Visit.isCancelled_iff.symm

/-! ## Refused or granted -/

theorem planCancel_of_acceptable (h : c.Acceptable) :
    d.planCancel booking c = match cancellationTarget (d.store.visitsForReference booking) with
      | none => .ok (.nothing (d.store.visitsForReference booking).getLast?)
      | some target => .ok (.of (some (d.cancelledTarget target c))
          (d.cancelRecords (d.store.visitsForReference booking) target c)) := by
  have houtcome : (c.outcome != .supersededCancellation) = true := by simpa using h.outcome
  rw [planCancel, houtcome, decide_eq_true h.short]
  rfl

theorem planCancel_of_not (d : Desk) (booking : Reference) (h : ¬c.Acceptable) :
    ∃ refusal, d.planCancel booking c = .error refusal := by
  by_cases houtcome : c.outcome = .supersededCancellation
  · exact ⟨_, by rw [planCancel, houtcome]; rfl⟩
  · have hlong : ¬Text.byteLength (c.text.getD "") ≤ Limits.maxTextLength :=
      fun hshort => h ⟨houtcome, hshort⟩
    have hcheck : (c.outcome != .supersededCancellation) = true := by simpa using houtcome
    exact ⟨_, by rw [planCancel, hcheck, decide_eq_false hlong]; rfl⟩

theorem cancel_of_not (d : Desk) (booking : Reference) (h : ¬c.Acceptable) :
    ∃ refusal, d.cancel booking c = (.error refusal, d) := by
  obtain ⟨refusal, hplan⟩ := d.planCancel_of_not booking h
  refine ⟨refusal, ?_⟩
  unfold cancel transact
  rw [Plan.run_lift, hplan]

/-- A booking without a live visit stays as it is. -/
theorem cancel_of_none (h : c.Acceptable)
    (hnone : cancellationTarget (d.store.visitsForReference booking) = none) :
    d.cancel booking c = (.ok (d.store.visitsForReference booking).getLast?, d) := by
  unfold cancel transact
  rw [Plan.run_lift, planCancel_of_acceptable h, hnone]
  rfl

theorem cancel_of_target (h : c.Acceptable)
    (hlive : cancellationTarget (d.store.visitsForReference booking) = some target) :
    d.cancel booking c = (.ok (some (d.cancelledTarget target c)),
      d.commit (d.cancelRecords (d.store.visitsForReference booking) target c)) := by
  unfold cancel transact
  rw [Plan.run_lift, planCancel_of_acceptable h, hlive]
  rfl

/-! ## The records of a cancellation -/

/-- The pending drafts go with their applications; whatever else is recorded of them are audits. -/
theorem mem_flatMap_discardPending (h : d.store.Linked) {r : Record} (haudit : r.audit? = none)
    (actionedBy : String) :
    r ∈ (d.pendingOf booking target).flatMap (fun v => d.discardPending v actionedBy) ↔
      ∃ v ∈ d.pendingOf booking target,
        r = .applicationDeleted v.applicationReference ∨ r = .visitDeleted v.id := by
  rw [List.mem_flatMap]
  refine exists_congr fun v => and_congr_right fun hv => ?_
  obtain ⟨⟨hrow, -⟩, hdraft, -⟩ := (mem_pendingOf h.sound).mp hv
  obtain ⟨audit, hrecords⟩ := discardPending_eq h hrow hdraft actionedBy
  have hother : r ≠ .audit audit := by
    rintro rfl
    cases haudit
  simp [hrecords, hother]

theorem visitDeleted_mem_cancelRecords (h : d.store.Linked)
    (htarget : d.store.rows.HasVisit target) {id : UInt64} :
    .visitDeleted id ∈ d.cancelRecords (d.store.visitsForReference booking) target c ↔
      ∃ v ∈ d.pendingOf booking target, v.id = id := by
  rw [cancelRecords_eq_append h booking htarget c, List.mem_cons, List.mem_append, List.mem_cons,
    mem_flatMap_discardPending h rfl]
  cases target.isDraft <;> simp [Visit.cancelledAudit, eq_comm]

theorem applicationDeleted_mem_cancelRecords (h : d.store.Linked)
    (hrow : d.store.rows.HasVisit target) (hown : target.reference = booking)
    {reference : Reference} :
    .applicationDeleted reference ∈
        d.cancelRecords (d.store.visitsForReference booking) target c ↔
      ∃ v, d.store.rows.HasVisit v ∧ v.reference = booking ∧ v.isDraft = true ∧
        v.applicationReference = reference := by
  rw [cancelRecords_eq_append h booking hrow c, List.mem_cons, List.mem_append, List.mem_cons,
    mem_flatMap_discardPending h rfl]
  simp only [mem_pendingOf h.sound]
  constructor
  · rintro (hr | hr | hr | ⟨v, ⟨⟨hv, hvown⟩, hdraft, -⟩, hr | hr⟩)
    · cases hr
    · split at hr
      · next hdraft =>
        cases List.mem_singleton.mp hr
        exact ⟨target, hrow, hown, hdraft, rfl⟩
      · cases hr
    · cases hr
    · cases hr
      exact ⟨v, hv, hvown, hdraft, rfl⟩
    · cases hr
  · rintro ⟨v, hv, hvown, hdraft, rfl⟩
    by_cases hid : v.id = target.id
    · cases hv.unique hrow hid
      exact .inr (.inl (by rw [if_pos hdraft]; exact List.mem_singleton.mpr rfl))
    · exact .inr (.inr (.inr ⟨v, ⟨⟨hv, hvown⟩, hdraft, hid⟩, .inl rfl⟩))

/-- The target is cancelled, the other drafts of the booking are gone, all other visits stay. -/
theorem visits_cancelRecords (h : d.store.Linked) (hrow : d.store.rows.HasVisit target)
    (id : UInt64) :
    (d.store.rows.applyCommit
        (d.cancelRecords (d.store.visitsForReference booking) target c)).visits[id]? =
      if target.id = id then some (d.cancelledTarget target c)
      else (d.store.visit? id).filter fun v => !(v.reference == booking && v.isDraft) := by
  obtain ⟨audit, hrecords⟩ := cancelRecords_eq h booking hrow c
  have hdeleted : .visitDeleted id ∈ d.cancelRecords (d.store.visitsForReference booking) target c ↔
    ∃ v ∈ d.pendingOf booking target, v.id = id := visitDeleted_mem_cancelRecords h hrow
  rw [hrecords] at hdeleted ⊢
  rw [List.mem_cons, or_iff_right nofun] at hdeleted
  rw [applyCommit_cons, visits_of_no_save (no_visit_behind_target d _ _ _ _)]
  change (if _ then none else (d.store.visits.insert target.id (d.cancelledTarget target c))[id]?) =
    _
  rw [getElem?_insert]
  by_cases hid : target.id = id
  · rw [if_pos hid, if_pos hid, if_neg]
    intro hgone
    obtain ⟨v, hv, hsame⟩ := hdeleted.mp hgone
    exact ((mem_pendingOf h.sound).mp hv).2.2 (hsame.trans hid.symm)
  · rw [if_neg hid, if_neg hid]
    refine ite_none_eq_filter fun v hv => hdeleted.trans ?_
    have hkey : v.id = id := h.sound.keyed.visits id v hv
    subst hkey
    have hvrow : d.store.rows.HasVisit v := hv
    simp only [mem_pendingOf h.sound, Bool.not_eq_false', Bool.and_eq_true, beq_iff_eq]
    constructor
    · rintro ⟨w, ⟨⟨hw, hown⟩, hdraft, -⟩, hsame⟩
      cases hw.unique hvrow hsame
      exact ⟨hown, hdraft⟩
    · rintro ⟨hown, hdraft⟩
      exact ⟨v, ⟨⟨hvrow, hown⟩, hdraft, Ne.symm hid⟩, rfl⟩

/-- The incomplete applications of the booking are gone, all others stay. -/
theorem applications_cancelRecords (h : d.store.Linked) (hbacked : d.store.rows.Backed)
    (hrow : d.store.rows.HasVisit target) (hown : target.reference = booking)
    (reference : Reference) :
    (d.store.rows.applyCommit
        (d.cancelRecords (d.store.visitsForReference booking) target c)).applications[reference]? =
      (d.store.application? reference).filter fun a =>
        !(a.bookingReference == booking && !a.completed) := by
  have hsaves : ∀ a, .applicationSaved a ∉
      d.cancelRecords (d.store.visitsForReference booking) target c := by
    intro a ha
    rw [cancelRecords_eq_append h booking hrow c, List.mem_cons, List.mem_append, List.mem_cons,
      mem_flatMap_discardPending h rfl] at ha
    cases hdraft : target.isDraft <;> simp [hdraft, Visit.cancelledAudit] at ha
  rw [applications_of_no_save hsaves]
  refine ite_none_eq_filter fun a ha =>
    (applicationDeleted_mem_cancelRecords h hrow hown).trans ?_
  simp only [Bool.not_eq_false', Bool.and_eq_true, beq_iff_eq, Bool.not_eq_true']
  constructor
  · rintro ⟨v, hv, hvown, hdraft, rfl⟩
    obtain ⟨b, hb, hopen, hdrafts⟩ := h.rows.application v hv hdraft
    cases ha.symm.trans hb
    exact ⟨hdrafts.booking.symm.trans hvown, hopen⟩
  · rintro ⟨hbooking, hopen⟩
    obtain ⟨hkey, v, hfound, hdraft, -, -, hdrafts⟩ :=
      (h.paired hbacked).draft reference a ha hopen
    exact ⟨v, (h.sound.visitForApplication hfound).1, hdrafts.booking.trans hbooking, hdraft,
      hdrafts.application.trans hkey⟩

/-! ## Nothing of the booking is left -/

/-- Behind a cancellation all visits of the booking are cancelled. -/
theorem isCancelled_cancelRecords (h : d.store.Linked) (hone : d.store.rows.OneBooked)
    (hends : d.EndsWith booking target) {v : Visit} (hv : (d.store.rows.applyCommit
      (d.cancelRecords (d.store.visitsForReference booking) target c)).HasVisit v)
    (hown : v.reference = booking) : v.isCancelled = true := by
  obtain ⟨hrow, htarget⟩ := h.sound.mem_visitsForReference.mp hends.stored
  rw [HasVisit, visits_cancelRecords h hrow] at hv
  split at hv
  · cases hv
    rfl
  · next hid =>
    obtain ⟨hstored, hkept⟩ := Option.filter_eq_some_iff.mp hv
    have hvrow : d.store.rows.HasVisit v := hstored
    refine Visit.isCancelled_iff.mpr ⟨fun hbooked => ?_, by simpa [hown] using hkept⟩
    rcases hends.first with htb | ⟨hnone, -⟩
    · exact hid (congrArg Visit.id
        (hone target v hrow hvrow htb hbooked (htarget.trans hown.symm)))
    · rw [hnone v (h.sound.mem_visitsForReference.mpr ⟨hvrow, hown⟩)] at hbooked
      cases hbooked

/-- If the live visits that are left are those of other bookings, a session has as many seats taken
as the booking found it to have. -/
theorem loadWithHolds_eq {s t : Store} (hs : s.Sound) (ht : t.Sound)
    (hnone : ∀ v, t.rows.HasVisit v → v.reference = booking → v.isCancelled = true)
    (hothers : ∀ v, v.reference ≠ booking → v.isCancelled = false →
      (t.rows.HasVisit v ↔ s.rows.HasVisit v)) (o : SessionOccurrence) (p : Visit → Bool) :
    o.loadWithHolds (t.visits.values.filter p) none =
      o.loadWithHolds (s.visits.values.filter p) (some booking) := by
  refine congrArg SessionLoad.ofVisits ?_
  rw [List.filter_filter, List.filter_filter]
  refine Ascending.eq_of_mem_iff (ht.keyed.visits.ascending_values.sublist List.filter_sublist)
    (hs.keyed.visits.ascending_values.sublist List.filter_sublist) fun v => ?_
  rw [List.mem_filter, List.mem_filter, ht.mem_visits, hs.mem_visits]
  change t.rows.HasVisit v ∧ _ ↔ s.rows.HasVisit v ∧ _
  cases hcancelled : v.isCancelled with
  | true => simp
  | false =>
    by_cases hown : v.reference = booking
    · have hgone : ¬t.rows.HasVisit v := fun hv => by simp [hnone v hv hown] at hcancelled
      simp [hown, hgone]
    · rw [hothers v hown hcancelled]
      simp [Ne.symm hown]

/-- The booking has ended. No visit of it is live and its incomplete applications are gone; one
visit has been cancelled and the other drafts are gone, or there was nothing to do. Each session has
the seats back that the booking held, nothing has become of other bookings, and another cancellation
does nothing. -/
structure EndsBooking (d : Desk) (booking : Reference) (c : Cancellation) (answer : Option Visit)
    (after : Desk) : Prop where
  visits : ∀ v ∈ after.store.visitsForReference booking, v.isCancelled = true
  applications : ∀ reference, after.store.application? reference =
    (d.store.application? reference).filter fun a =>
      !(a.bookingReference == booking && !a.completed)
  live : (∃ v ∈ d.store.visitsForReference booking, v.isCancelled = false) →
    ∃ target, d.EndsWith booking target ∧
      answer = some { target with
        status := .cancelled
        outcome := some c.outcome
        notes := target.notes ++ c.text.toList.map (⟨.visitCancellation, ·⟩)
        modifiedAt := d.now } ∧
      after.store.visit? target.id = answer ∧
      ∀ id, id ≠ target.id → after.store.visit? id =
        (d.store.visit? id).filter fun v => !(v.reference == booking && v.isDraft)
  idle : (∀ v ∈ d.store.visitsForReference booking, v.isCancelled = true) →
    answer = (d.store.visitsForReference booking).getLast? ∧ after = d
  seats : ∀ o : SessionOccurrence, o.loadWithHolds after.store.visits.values none =
    o.loadWithHolds d.store.visits.values (some booking)
  seatsInRoom : ∀ (o : SessionOccurrence) roomDay,
    o.loadWithHolds (after.store.visitsInRoomDay roomDay) none =
      o.loadWithHolds (d.store.visitsInRoomDay roomDay) (some booking)
  others : ∀ other, other ≠ booking → d.store.rows.SameUnder after.store.rows other
  groups : after.store.groups = d.store.groups
  templates : after.store.templates = d.store.templates
  again : ∀ c' : Cancellation, c'.Acceptable →
    after.cancel booking c' = (.ok (after.store.visitsForReference booking).getLast?, after)

theorem endsBooking_of_none (h : d.store.Linked) (hbacked : d.store.rows.Backed)
    (hnone : cancellationTarget (d.store.visitsForReference booking) = none) :
    d.EndsBooking booking c (d.store.visitsForReference booking).getLast? d := by
  have hcancelled := cancellationTarget_eq_none.mp hnone
  have hrows : ∀ v, d.store.rows.HasVisit v → v.reference = booking → v.isCancelled = true :=
    fun v hv hown => hcancelled v (h.sound.mem_visitsForReference.mpr ⟨hv, hown⟩)
  have hloads := loadWithHolds_eq h.sound h.sound hrows fun _ _ _ => Iff.rfl
  exact {
    visits := hcancelled
    applications := by
      intro reference
      refine (filter_eq_self fun a ha => ?_).symm
      rw [Bool.not_eq_true', Bool.and_eq_false_imp, beq_iff_eq]
      intro hbooking
      -- an incomplete application would have a draft
      refine eq_false_of_ne_true fun hopen => ?_
      obtain ⟨-, v, hfound, hdraft, -, -, hdrafts⟩ :=
        (h.paired hbacked).draft reference a ha (by simpa using hopen)
      have hcancelled := hrows v (h.sound.visitForApplication hfound).1
        (hdrafts.booking.trans hbooking)
      exact (Visit.isCancelled_iff.mp hcancelled).2 hdraft
    live := by
      rintro ⟨v, hv, hlive⟩
      rw [hcancelled v hv] at hlive
      cases hlive
    idle := fun _ => ⟨rfl, rfl⟩
    seats := fun o => by simpa using hloads o fun _ => true
    seatsInRoom := by
      intro o roomDay
      rw [h.sound.visitsInRoomDay_eq]
      exact hloads o _
    others := fun _ _ => ⟨fun _ _ => Iff.rfl, fun _ _ => Iff.rfl, rfl⟩
    groups := rfl
    templates := rfl
    again := fun c' hc' => cancel_of_none hc' hnone }

theorem endsBooking_of_target (h : d.store.Linked) (hbacked : d.store.rows.Backed)
    (hone : d.store.rows.OneBooked)
    (hlive : cancellationTarget (d.store.visitsForReference booking) = some target) :
    d.EndsBooking booking c (some (d.cancelledTarget target c))
      (d.commit (d.cancelRecords (d.store.visitsForReference booking) target c)) := by
  have hends := endsWith_of_cancellationTarget h.sound hlive
  obtain ⟨hrow, hown, hopen⟩ := h.sound.of_cancellationTarget hlive
  have hstore := d.commit_store (d.cancelRecords (d.store.visitsForReference booking) target c)
  generalize d.commit (d.cancelRecords (d.store.visitsForReference booking) target c) = after
    at hstore ⊢
  have hsound : after.store.Sound := hstore ▸ h.sound.applyCommit _
  have hrows := (congrArg Store.rows hstore).trans (Store.rows_applyCommit ..)
  have hvisits : ∀ id, after.store.visit? id = if target.id = id then
      some (d.cancelledTarget target c)
      else (d.store.visit? id).filter fun v => !(v.reference == booking && v.isDraft) := fun id =>
    (congrArg (fun t : Rows => t.visits[id]?) hrows).trans (visits_cancelRecords h hrow id)
  have hended : ∀ v, after.store.rows.HasVisit v → v.reference = booking →
      v.isCancelled = true := by
    rw [hrows]
    exact fun v hv => isCancelled_cancelRecords h hone hends hv
  have hconcerns := concerns_cancelRecords h hrow hown c
  have hothers : ∀ other, other ≠ booking → d.store.rows.SameUnder after.store.rows other := by
    rw [hrows]
    exact fun other hother => sameUnder_applyCommit fun r hr =>
      ⟨booking, hother.symm, hconcerns r hr⟩
  have hcancelled : ∀ v ∈ after.store.visitsForReference booking, v.isCancelled = true :=
    fun v hv => hended v (hsound.mem_visitsForReference.mp hv).1
      (hsound.mem_visitsForReference.mp hv).2
  have hloads := loadWithHolds_eq h.sound hsound hended fun v hother _ =>
    ((hothers v.reference hother).visits v rfl).symm
  exact {
    visits := hcancelled
    applications := fun reference =>
      (congrArg (fun t : Rows => t.applications[reference]?) hrows).trans
        (applications_cancelRecords h hbacked hrow hown reference)
    live := fun _ => ⟨target, hends, rfl, (hvisits target.id).trans (if_pos rfl),
      fun id hid => (hvisits id).trans (if_neg (Ne.symm hid))⟩
    idle := by
      intro hidle
      rw [cancellationTarget_eq_none.mpr hidle] at hlive
      cases hlive
    seats := fun o => by simpa using hloads o fun _ => true
    seatsInRoom := by
      intro o roomDay
      rw [hsound.visitsInRoomDay_eq, h.sound.visitsInRoomDay_eq]
      exact hloads o _
    others := hothers
    groups := (congrArg Rows.groups hrows).trans
      (groups_applyCommit fun r hr => (hconcerns r hr).ofBooking)
    templates := (congrArg Rows.templates hrows).trans
      (templates_applyCommit fun r hr => Record.no_template_of_ofBooking (hconcerns r hr).ofBooking)
    again := fun c' hc' => cancel_of_none hc' (cancellationTarget_eq_none.mpr hcancelled) }

/-- An acceptable cancellation ends the booking, whether the booking is known or not. -/
theorem exists_endsBooking (h : d.store.Linked) (hbacked : d.store.rows.Backed)
    (hone : d.store.rows.OneBooked) (booking : Reference) (hc : c.Acceptable) :
    ∃ answer after, d.cancel booking c = (.ok answer, after) ∧
      d.EndsBooking booking c answer after := by
  cases hlive : cancellationTarget (d.store.visitsForReference booking) with
  | none => exact ⟨_, _, cancel_of_none hc hlive, endsBooking_of_none h hbacked hlive⟩
  | some target =>
    exact ⟨_, _, cancel_of_target hc hlive, endsBooking_of_target h hbacked hone hlive⟩

/-! ## Runs -/

/-- A cancellation is granted just if it is acceptable; a granted one ends the booking and a refused
one does nothing. -/
structure CancelsExactly (d : Desk) (booking : Reference) (c : Cancellation) : Prop where
  granted_iff : (∃ answer, (d.cancel booking c).1 = .ok answer) ↔ c.Acceptable
  ends : ∀ answer, (d.cancel booking c).1 = .ok answer →
    d.EndsBooking booking c answer (d.cancel booking c).2
  refused : ∀ refusal, (d.cancel booking c).1 = .error refusal → (d.cancel booking c).2 = d

theorem cancelsExactly (h : d.store.Linked) (hbacked : d.store.rows.Backed)
    (hone : d.store.rows.OneBooked) (booking : Reference) (c : Cancellation) :
    d.CancelsExactly booking c := by
  by_cases hc : c.Acceptable
  · obtain ⟨answer, after, hgranted, hends⟩ := exists_endsBooking h hbacked hone booking hc
    refine ⟨⟨fun _ => hc, fun _ => ⟨answer, by rw [hgranted]⟩⟩, fun other hother => ?_,
      fun refusal hrefused => ?_⟩
    · rw [hgranted] at hother ⊢
      cases hother
      exact hends
    · rw [hgranted] at hrefused
      cases hrefused
  · obtain ⟨refusal, hrefused⟩ := d.cancel_of_not booking hc
    have hnone : ∀ answer, (d.cancel booking c).1 ≠ .ok answer := by
      intro answer hgranted
      rw [hrefused] at hgranted
      cases hgranted
    exact ⟨⟨fun ⟨answer, hgranted⟩ => absurd hgranted (hnone answer), fun h => absurd h hc⟩,
      fun answer hgranted => absurd hgranted (hnone answer), fun _ _ => by rw [hrefused]⟩

/-- All along every run from an empty journal, cancelling a booking clears the whole booking and
nothing else. A run with restarts takes commits that fit their length fields. -/
theorem cancelsExactly_throughout (policy : BookingPolicy) (now : Moment)
    (prisoners : Std.ExtTreeMap String PrisonerContext) (references : ReferenceSource)
    (actions : List Action)
    (hrange : (openOn #[] policy now prisoners references).Throughout InRange actions)
    (hfits : .restart ∈ actions →
      (openOn #[] policy now prisoners references).Along Fits actions) :
    (openOn #[] policy now prisoners references).Throughout
      (fun d => ∀ booking c, d.CancelsExactly booking c) actions := by
  have hbacked := rows_throughout_openOn (P := fun t => t.Backed)
    (fun h hbacked hc => backed_of_writes h hbacked hc) anchored_empty.backed hrange hfits
  have hone := kept_throughout preserved_oneBooked hrange False.elim
  refine (hbacked.and hone).imp ?_
  rintro d ⟨⟨hlinked, hbacked⟩, hone⟩
  exact cancelsExactly hlinked hbacked hone.live

/-- Booking b, with its booked visit and the change that is pending for it, is cancelled. -/
theorem cancelsExactly_throughout_sample :
    let d := Sample.desk.run Sample.pendingChange
    let c : Cancellation := ⟨.visitorCancelled, some "ill", "clerk"⟩
    Sample.desk.Throughout InRange Sample.pendingChange ∧ c.Acceptable ∧
      (d.store.visitsForReference "b").map (·.status) = [.booked, .changing] ∧
      ∃ answer, (d.cancel "b" c).1 = .ok answer ∧
        d.EndsBooking "b" c answer (d.cancel "b" c).2 := by
  intro d c
  have hrange := throughout_inRange (m := 0) (by decide) (by decide +kernel)
    Sample.along_pendingChange (by decide)
  have hc : c.Acceptable := ⟨by decide, by decide⟩
  have hcancels : d.CancelsExactly "b" c := (cancelsExactly_throughout Sample.policy _ _
    Sample.letters Sample.pendingChange hrange
    (by simp [Sample.pendingChange, Sample.confirmed, Sample.actions])).last "b" c
  obtain ⟨answer, hgranted⟩ := hcancels.granted_iff.mpr hc
  exact ⟨hrange, hc, by decide +kernel, answer, hgranted, hcancels.ends answer hgranted⟩

end Desk

end PrisonVisits
