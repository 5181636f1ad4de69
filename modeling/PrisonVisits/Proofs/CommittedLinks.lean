import PrisonVisits.Proofs.Linkage

/-! # Actions keep the links

Whatever an action commits leaves every draft linked to its application. The commit says enough of
the rows for this: any store with the same rows keeps its links when it applies the commit, also one
that was built anew from the journal. -/

namespace PrisonVisits

open Rows

/-- The action makes a new application if it is granted. -/
def Action.starts : Action → Bool
  | .reserve _ | .change _ => true
  | _ => false

/-! ## What the look-ups found -/

namespace Store

variable {s : Store}

theorem Sound.mem_visitsForReference (h : s.Sound) {reference : Reference} {v : Visit} :
    v ∈ s.visitsForReference reference ↔ s.rows.HasVisit v ∧ v.reference = reference := by
  rw [h.visitsForReference_eq, List.mem_filter, h.mem_visits, decide_eq_true_iff]
  rfl

theorem Sound.mem_visitsForTemplate (h : s.Sound) {template : Reference} {v : Visit} :
    v ∈ s.visitsForTemplate template ↔
      s.rows.HasVisit v ∧ v.sessionTemplateReference = template := by
  rw [h.visitsForTemplate_eq, List.mem_filter, h.mem_visits, decide_eq_true_iff]
  rfl

theorem Sound.of_bookedVisit? (h : s.Sound) {reference : Reference} {v : Visit}
    (hv : s.bookedVisit? reference = some v) :
    s.rows.HasVisit v ∧ v.reference = reference ∧ v.isBooked = true := by
  obtain ⟨hrow, hreference⟩ := h.mem_visitsForReference.mp (List.mem_of_find?_eq_some hv)
  exact ⟨hrow, hreference, List.find?_some hv⟩

theorem Sound.of_cancellationTarget (h : s.Sound) {reference : Reference} {v : Visit}
    (hv : Desk.cancellationTarget (s.visitsForReference reference) = some v) :
    s.rows.HasVisit v ∧ v.reference = reference ∧ (v.isBooked = true ∨ v.isDraft = true) := by
  have hfound : v ∈ s.visitsForReference reference ∧ (v.isBooked = true ∨ v.isDraft = true) := by
    unfold Desk.cancellationTarget at hv
    rw [Option.orElse_eq_orElse, Option.orElse_eq_or] at hv
    rcases Option.or_eq_some_iff.mp hv with hv | ⟨-, hv⟩
    · exact ⟨List.mem_of_find?_eq_some hv, .inl (List.find?_some hv)⟩
    · obtain ⟨hmem, hdraft⟩ := List.mem_filter.mp (List.mem_of_getLast? hv)
      exact ⟨hmem, .inr hdraft⟩
  obtain ⟨hmem, hlive⟩ := hfound
  obtain ⟨hrow, hreference⟩ := h.mem_visitsForReference.mp hmem
  exact ⟨hrow, hreference, hlive⟩

end Store

theorem Visit.isDraft_of_isBooked {v : Visit} (h : v.isBooked = true) : v.isDraft = false := by
  unfold isBooked at h
  unfold isDraft
  cases hs : v.status <;> simp_all

/-! ## New and moved drafts -/

theorem Application.isDraft_draftVisit (a : Application) (id : UInt64) (o : SessionOccurrence)
    (now : Moment) : (a.draftVisit id o now).isDraft = true := by
  simp only [Visit.isDraft, draftVisit]
  cases a.kind <;> rfl

/-- An application is discarded together with its draft. -/
theorem Application.discardRecords_of_isDraft {v : Visit} (hdraft : v.isDraft = true)
    (a : Application) (actionedBy : String) (now : Moment) :
    a.discardRecords (some v) actionedBy now = [.applicationDeleted a.reference,
      .visitDeleted v.id, a.audit .discardedApplication actionedBy now] := by
  rw [discardRecords, Option.filter_some, if_pos hdraft]
  rfl

theorem ReserveRequest.drafts (r : ReserveRequest) (reference bookingReference : Reference)
    (t : SessionTemplate) (id : UInt64) (now : Moment) :
    (r.application reference bookingReference (t.occurrence r.slot.date) now).Drafts
      ((r.application reference bookingReference (t.occurrence r.slot.date) now).draftVisit id
        (t.occurrence r.slot.date) now) := by
  constructor <;> rfl

theorem ChangeRequest.drafts (r : ChangeRequest) (reference : Reference) (booked : Visit)
    (t : SessionTemplate) (id : UInt64) (now : Moment) :
    (r.application reference booked (t.occurrence r.slot.date) now).Drafts
      ((r.application reference booked (t.occurrence r.slot.date) now).draftVisit id
        (t.occurrence r.slot.date) now) := by
  constructor <;> rfl

/-- An amendment moves an application and its draft to the same slot. -/
theorem Desk.drafts_of_placeAmended {d : Desk} {m : Amendment} {existing placed : Application}
    {draft moved : Visit} {slot : Slot} (h : existing.Drafts draft)
    (hplaced : d.placeAmended (m.people existing) draft slot = .ok (placed, moved)) :
    (placed.touched d.now).Drafts ((placed.touched d.now).bring moved d.now) := by
  rcases placeAmended_eq_ok hplaced with ⟨-, rfl, rfl⟩ | ⟨-, context, t, -, -, rfl, rfl⟩
  · exact { h with contact := rfl, visitors := rfl, support := rfl }
  · exact { h with
      template := rfl
      restriction := rfl
      date := rfl
      contact := rfl
      visitors := rfl
      support := rfl }

/-- An application and its draft stay the rows that they were: for whom, for which booking, and how
far they have come. -/
structure SameRows (existing placed : Application) (draft moved : Visit) : Prop where
  reference : placed.reference = existing.reference
  booking : placed.bookingReference = existing.bookingReference
  kind : placed.kind = existing.kind
  completed : placed.completed = existing.completed
  id : moved.id = draft.id
  application : moved.applicationReference = draft.applicationReference
  draftBooking : moved.reference = draft.reference
  prisoner : moved.prisonerId = draft.prisonerId
  status : moved.status = draft.status

/-- An amendment changes who comes and when, not which rows these are. -/
theorem Desk.sameRows_of_placeAmended {d : Desk} {m : Amendment} {existing placed : Application}
    {draft moved : Visit} {slot : Slot}
    (hplaced : d.placeAmended (m.people existing) draft slot = .ok (placed, moved)) :
    SameRows existing placed draft moved := by
  rcases placeAmended_eq_ok hplaced with ⟨-, rfl, rfl⟩ | ⟨-, context, t, -, -, rfl, rfl⟩
  · constructor <;> rfl
  · constructor <;> rfl

/-! ## Discards -/

namespace Rows

variable {t now : Rows}

/-- Of a store's drafts some are left; one more is discarded with its application. -/
theorem Linked.draftDiscarded (h : t.Linked) (hnow : now.Linked)
    (hleft : ∀ v, now.HasVisit v → v.isDraft = true → t.HasVisit v) {v : Visit}
    (hv : t.HasVisit v) (hdraft : v.isDraft = true) (audit : EventAudit) :
    (now.applyCommit [.applicationDeleted v.applicationReference, .visitDeleted v.id,
      .audit audit]).Linked := by
  have hgone := hnow.visitDeleted v.id
  have hfree : (now.apply (.visitDeleted v.id)).Undrafted v.applicationReference := by
    intro w hw hwd hsame
    obtain ⟨hne, hw⟩ := hasVisit_visitDeleted.mp hw
    exact hne (congrArg Visit.id (h.draft_unique (hleft w hw hwd) hwd hv hdraft hsame))
  exact (hgone.applicationDeleted hfree).audit audit

/-- An application is discarded, with its draft if it has one. -/
theorem Linked.discarded (h : t.Linked) {a : Application} {draft : Option Visit}
    (hdraft : ∀ v, draft = some v → t.HasVisit v ∧ v.isDraft = true ∧
      v.applicationReference = a.reference)
    (hnone : draft = none → t.Undrafted a.reference) (actionedBy : String) (at' : Moment) :
    (t.applyCommit (a.discardRecords draft actionedBy at')).Linked := by
  cases draft with
  | none => exact (h.applicationDeleted (hnone rfl)).audit _
  | some v =>
    obtain ⟨hv, hvd, happlication⟩ := hdraft v rfl
    rw [Application.discardRecords_of_isDraft hvd, ← happlication]
    exact h.draftDiscarded h (fun w hw _ => hw) hv hvd _

end Rows

namespace Desk

variable {d : Desk}

/-- A pending draft is discarded as its application is. -/
theorem discardPending_eq_discardRecords (h : d.store.Linked) {v : Visit}
    (hv : d.store.rows.HasVisit v) (hdraft : v.isDraft = true) (actionedBy : String) :
    ∃ a, d.store.application? v.applicationReference = some a ∧ a.completed = false ∧
      d.discardPending v actionedBy = a.discardRecords (some v) actionedBy d.now := by
  obtain ⟨a, ha, hopen, -⟩ := h.rows.application v hv hdraft
  have hstored : d.store.application? v.applicationReference = some a := ha
  refine ⟨a, hstored, hopen, ?_⟩
  unfold discardPending
  rw [hstored, Option.filter_some, if_pos (by rw [hopen]; rfl)]

/-- A pending draft is discarded with its application. -/
theorem discardPending_eq (h : d.store.Linked) {v : Visit} (hv : d.store.rows.HasVisit v)
    (hdraft : v.isDraft = true) (actionedBy : String) : ∃ audit,
      d.discardPending v actionedBy = [.applicationDeleted v.applicationReference,
        .visitDeleted v.id, .audit audit] := by
  obtain ⟨a, ha, -, hrecords⟩ := discardPending_eq_discardRecords h hv hdraft actionedBy
  have hkey : a.reference = v.applicationReference := h.sound.keyed.applications _ a ha
  exact ⟨_, by rw [hrecords, Application.discardRecords_of_isDraft hdraft, hkey]; rfl⟩

/-- The rows of a booking that are drafts, all but one. -/
def pendingOf (d : Desk) (bookingReference : Reference) (target : Visit) : List Visit :=
  (d.store.visitsForReference bookingReference).filter fun v => v.isDraft && v.id != target.id

theorem mem_pendingOf (h : d.store.Sound) {bookingReference : Reference} {target v : Visit} :
    v ∈ d.pendingOf bookingReference target ↔ (d.store.rows.HasVisit v ∧
      v.reference = bookingReference) ∧ v.isDraft = true ∧ v.id ≠ target.id := by
  unfold pendingOf
  rw [List.mem_filter, h.mem_visitsForReference]
  simp

/-- A draft that is cancelled takes its application along. -/
theorem cancelRecords_eq_append (h : d.store.Linked) (bookingReference : Reference)
    {target : Visit} (htarget : d.store.rows.HasVisit target) (c : Cancellation) :
    d.cancelRecords (d.store.visitsForReference bookingReference) target c =
      .visitSaved (d.cancelledTarget target c) ::
        ((if target.isDraft then [.applicationDeleted target.applicationReference] else []) ++
          (d.cancelledTarget target c).cancelledAudit c.actionedBy d.now ::
            (d.pendingOf bookingReference target).flatMap
              fun v => d.discardPending v c.actionedBy) := by
  have hknown : (target.isDraft && (d.store.application? target.applicationReference).isSome) =
      target.isDraft := by
    cases hdraft : target.isDraft with
    | false => rfl
    | true =>
      obtain ⟨a, ha, -⟩ := h.rows.application target htarget hdraft
      exact Option.isSome_iff_exists.mpr ⟨a, ha⟩
  rw [cancelRecords, hknown]
  rfl

theorem cancelRecords_eq (h : d.store.Linked) (bookingReference : Reference) {target : Visit}
    (htarget : d.store.rows.HasVisit target) (c : Cancellation) : ∃ audit,
      d.cancelRecords (d.store.visitsForReference bookingReference) target c =
        .visitSaved (d.cancelledTarget target c) ::
          ((if target.isDraft then [.applicationDeleted target.applicationReference] else []) ++
            .audit audit :: (d.pendingOf bookingReference target).flatMap
              fun v => d.discardPending v c.actionedBy) :=
  ⟨_, cancelRecords_eq_append h bookingReference htarget c⟩

theorem linked_pending (h : d.store.Linked) {now : Rows} (hnow : now.Linked)
    (hleft : ∀ v, now.HasVisit v → v.isDraft = true → d.store.rows.HasVisit v)
    {pending : List Visit} (hpending : ∀ v ∈ pending, d.store.rows.HasVisit v ∧ v.isDraft = true)
    (actionedBy : String) :
    (now.applyCommit (pending.flatMap fun v => d.discardPending v actionedBy)).Linked := by
  induction pending generalizing now with
  | nil => exact hnow
  | cons v pending ih =>
    obtain ⟨⟨hv, hdraft⟩, hrest⟩ := List.forall_mem_cons.mp hpending
    obtain ⟨audit, hrecords⟩ := discardPending_eq h hv hdraft actionedBy
    rw [List.flatMap_cons, applyCommit_append, hrecords]
    refine ih (h.rows.draftDiscarded hnow hleft hv hdraft audit) (fun w hw hwd => ?_) hrest
    exact hleft w (hasVisit_visitDeleted.mp hw).2 hwd

theorem linked_cancelRecords (h : d.store.Linked) {bookingReference : Reference} {target : Visit}
    (htarget : d.store.rows.HasVisit target) (c : Cancellation) :
    (d.store.rows.applyCommit
      (d.cancelRecords (d.store.visitsForReference bookingReference) target c)).Linked := by
  obtain ⟨audit, hrecords⟩ := cancelRecords_eq h _ htarget c
  rw [hrecords, applyCommit_cons, applyCommit_append, applyCommit_cons]
  have hsaved : (d.store.rows.apply (.visitSaved (d.cancelledTarget target c))).Linked :=
    h.rows.visitSettled htarget rfl rfl rfl
  -- no other draft belongs to the target's application
  have hkept : ∀ v, (d.store.rows.apply (.visitSaved (d.cancelledTarget target c))).HasVisit v →
      v.isDraft = true → v.id ≠ target.id ∧ d.store.rows.HasVisit v := by
    intro v hv hdraft
    rcases hasVisit_visitSaved.mp hv with rfl | hv
    · cases hdraft
    · exact hv
  refine linked_pending h (Linked.audit ?_ audit) ?_ (fun v hv => ?_) c.actionedBy
  · cases hdraft : target.isDraft with
    | false => exact hsaved
    | true =>
      refine hsaved.applicationDeleted fun v hv hvd hsame => ?_
      obtain ⟨hne, hv⟩ := hkept v hv hvd
      exact hne (congrArg Visit.id (h.rows.draft_unique hv hvd htarget hdraft hsame))
  · cases target.isDraft <;> exact fun v hv hvd => (hkept v hv hvd).2
  · obtain ⟨⟨hv, -⟩, hdraft, -⟩ := (mem_pendingOf h.sound).mp hv
    exact ⟨hv, hdraft⟩

theorem linked_supersede {t : Rows} (h : t.Linked) {booked : Option Visit}
    (hbooked : ∀ old, booked = some old → t.HasVisit old) (actionedBy : String) (now : Moment) :
    (t.applyCommit (booked.toList.flatMap (supersedeRecords · actionedBy now))).Linked := by
  cases booked with
  | none => exact h
  | some old =>
    exact (h.visitSettled (w := superseded old now) (hbooked old rfl) rfl rfl rfl).audit _

/-- A superseded visit is booked, so drafts stay what they are. -/
theorem hasVisit_supersede {t : Rows} {booked : Option Visit}
    (hbooked : ∀ old, booked = some old → t.HasVisit old ∧ old.isBooked = true)
    (actionedBy : String) (now : Moment) {v : Visit} (hdraft : v.isDraft = true) :
    (t.applyCommit (booked.toList.flatMap (supersedeRecords · actionedBy now))).HasVisit v ↔
      t.HasVisit v := by
  cases booked with
  | none => exact Iff.rfl
  | some old =>
    obtain ⟨hold, hstatus⟩ := hbooked old rfl
    refine hasVisit_visitSaved.trans ⟨?_, fun hv => .inr ⟨fun hid => ?_, hv⟩⟩
    · rintro (rfl | ⟨-, hv⟩)
      · cases hdraft
      · exact hv
    · have hsame := hv.unique hold hid
      rw [hsame, Visit.isDraft_of_isBooked hstatus] at hdraft
      cases hdraft

theorem linked_bookRecords (h : d.store.Linked) {reference : Reference} {existing : Application}
    {draft : Visit} (hstored : d.store.application? reference = some existing)
    (hdrafted : d.store.draft? reference = some draft) (actionedBy : String) :
    (d.store.rows.applyCommit
      ((d.store.bookedVisit? existing.bookingReference).toList.flatMap
          (supersedeRecords · actionedBy d.now) ++
        [.visitSaved (existing.booked draft d.now), .applicationSaved (existing.complete d.now),
          existing.bookedAudit (existing.booked draft d.now) actionedBy d.now])).Linked := by
  obtain ⟨hv, hdraft, happlication⟩ := h.sound.of_draft? hdrafted
  have hbooked : ∀ old, d.store.bookedVisit? existing.bookingReference = some old →
      d.store.rows.HasVisit old ∧ old.isBooked = true := fun old hold =>
    ⟨(h.sound.of_bookedVisit? hold).1, (h.sound.of_bookedVisit? hold).2.2⟩
  rw [applyCommit_append]
  have hfirst := linked_supersede h.rows (fun old hold => (hbooked old hold).1) actionedBy d.now
  have hkept := fun w hw => @hasVisit_supersede _ _ hbooked actionedBy d.now w hw
  generalize d.store.rows.applyCommit
    ((d.store.bookedVisit? existing.bookingReference).toList.flatMap
    (supersedeRecords · actionedBy d.now)) = t at hfirst hkept
  have hsettled := hfirst.visitSettled (w := existing.booked draft d.now)
    ((hkept draft hdraft).mpr hv) rfl rfl rfl
  refine (hsettled.applicationSaved fun w hw hwd hsame => ?_).audit _
  have hreference := h.sound.keyed.applications reference existing hstored
  rcases hasVisit_visitSaved.mp hw with rfl | ⟨hne, hw⟩
  · cases hwd
  · have hown : w = draft := h.rows.draft_unique ((hkept w hwd).mp hw) hwd hv hdraft
      (hsame.trans (hreference.trans happlication.symm))
    exact hne (by rw [hown]; rfl)

theorem linked_start (h : d.store.Linked) {a : Application} {o : SessionOccurrence}
    (hunused : d.store.containsReference a.reference = false) (hopen : a.completed = false)
    (hdrafts : a.Drafts (a.draftVisit d.store.nextVisitId o d.now)) :
    (d.store.rows.applyCommit (d.start a o).records).Linked := by
  have hfree := h.rows.undrafted (h.sound.unused hunused).application
  have hsaved := h.rows.applicationSaved hfree
  refine (hsaved.draftAdded hfree ?_ hopen hdrafts h.below).audit _
  simp [apply]

/-- What an action commits keeps the links. -/
theorem linked_rows_of_writes (h : d.store.Linked) {a : Action} {c : Commit} (hw : d.Writes a c) :
    (d.store.rows.applyCommit c).Linked := by
  cases hw with
  | createGroup | updateGroup | deleteGroup | createTemplate | updateTemplate
  | setTemplateActive | deleteTemplate =>
    exact h.rows.of_same (h.rows.keyed.applyCommit _) rfl rfl
  | reserve counts booking known admits unused =>
    exact linked_start h unused rfl (ReserveRequest.drafts ..)
  | change counts found known admits unused =>
    exact linked_start h unused rfl (ChangeRequest.drafts ..)
  | @amend reference m existing placed draft moved stored incomplete drafted counts placing =>
    obtain ⟨hv, hdraft, happlication⟩ := h.sound.of_draft? drafted
    have hdrafts := drafts_of_placeAmended (h.drafts stored drafted) placing
    have hsame := sameRows_of_placeAmended placing
    have hmoved := h.rows.draftMoved (a := placed.touched d.now)
      (hsame.completed.trans incomplete) hdrafts hv hdraft hsame.id hsame.application
    exact hmoved.audit _
  | @book reference actionedBy existing draft stored incomplete bookable drafted left applies =>
    exact linked_bookRecords h stored drafted actionedBy
  | cancel outcome short live =>
    exact linked_cancelRecords h (h.sound.of_cancellationTarget live).1 _
  | @discard reference actionedBy existing stored incomplete =>
    have hreference := h.sound.keyed.applications reference existing stored
    refine h.rows.discarded (fun v hv => ?_) (fun hnone => ?_) _ _
    · rw [hreference]
      exact h.sound.of_draft? hv
    · rw [hreference]
      exact h.undrafted_of_draft? hnone
  | @expire reference existing stored incomplete stale =>
    have hreference := h.sound.keyed.applications reference existing stored
    refine h.rows.discarded (fun v hv => ?_) (fun hnone => ?_) _ _
    · rw [hreference]
      exact h.sound.of_draft? hv
    · rw [hreference]
      exact h.undrafted_of_draft? hnone

/-! ## Which visits a commit saves -/

theorem no_visit_discardRecords (a : Application) (draft : Option Visit) (actionedBy : String)
    (now : Moment) (v : Visit) : .visitSaved v ∉ a.discardRecords draft actionedBy now := by
  intro hv
  simp [Application.discardRecords, Application.audit] at hv

theorem no_visit_discardPending (d : Desk) (pending : Visit) (actionedBy : String) (v : Visit) :
    .visitSaved v ∉ d.discardPending pending actionedBy := by
  unfold discardPending
  split
  · next a _ => exact no_visit_discardRecords a _ _ _ v
  · simp

theorem no_visit_behind_target (d : Desk) (target : Visit) (audit : EventAudit)
    (pending : List Visit) (actionedBy : String) (v : Visit) :
    .visitSaved v ∉ (if target.isDraft then
      [.applicationDeleted target.applicationReference] else [])
      ++ .audit audit :: pending.flatMap fun p => d.discardPending p actionedBy := by
  intro hv
  rcases List.mem_append.mp hv with hv | hv
  · split at hv <;> simp at hv
  · rcases List.mem_cons.mp hv with hv | hv
    · cases hv
    · obtain ⟨p, -, hv⟩ := List.mem_flatMap.mp hv
      exact no_visit_discardPending d p _ v hv

theorem saved_of_start {d : Desk} {a : Application} {o : SessionOccurrence} {v : Visit}
    (hv : .visitSaved v ∈ (d.start a o).records) :
    v = a.draftVisit d.store.nextVisitId o d.now := by
  simpa [start, Application.audit] using hv

theorem saved_of_amend {a : Application} {v w : Visit} {kind : AuditKind} {actionedBy : String}
    {now : Moment}
    (hv : .visitSaved v ∈ [.applicationSaved a, .visitSaved w, a.audit kind actionedBy now]) :
    v = w := by
  simpa [Application.audit] using hv

theorem orderly_cancelRecords (h : d.store.Linked) {bookingReference : Reference} {target : Visit}
    (htarget : d.store.rows.HasVisit target) (c : Cancellation) :
    d.store.rows.OrderlyCommit
      (d.cancelRecords (d.store.visitsForReference bookingReference) target c) := by
  obtain ⟨audit, hrecords⟩ := cancelRecords_eq h _ htarget c
  rw [hrecords]
  refine ⟨fun v hv => ?_, orderly_of_no_visit (no_visit_behind_target d _ _ _ _)⟩
  cases hv
  exact .inl ⟨target, htarget, rfl, rfl, fun hdraft => by cases hdraft⟩

theorem orderly_start (h : d.store.Linked) {a : Application} {o : SessionOccurrence}
    (hunused : d.store.containsReference a.reference = false) :
    d.store.rows.OrderlyCommit (d.start a o).records := by
  unfold start
  rw [orderlyCommit_cons, orderlyCommit_cons]
  refine ⟨fun v hv => (by cases hv), fun v hv => ?_,
    orderly_of_no_visit (by simp [Application.audit])⟩
  cases hv
  exact .inr ⟨h.below.absent h.sound.keyed,
    h.rows.undrafted (h.sound.unused hunused).application⟩

theorem orderly_bookRecords (h : d.store.Linked) {reference : Reference} {existing : Application}
    {draft : Visit} (hdrafted : d.store.draft? reference = some draft) (actionedBy : String) :
    d.store.rows.OrderlyCommit
      ((d.store.bookedVisit? existing.bookingReference).toList.flatMap
          (supersedeRecords · actionedBy d.now) ++
        [.visitSaved (existing.booked draft d.now), .applicationSaved (existing.complete d.now),
          existing.bookedAudit (existing.booked draft d.now) actionedBy d.now]) := by
  obtain ⟨hv, hdraft, -⟩ := h.sound.of_draft? hdrafted
  have hbooked : ∀ old, d.store.bookedVisit? existing.bookingReference = some old →
      d.store.rows.HasVisit old ∧ old.isBooked = true := fun old hold =>
    ⟨(h.sound.of_bookedVisit? hold).1, (h.sound.of_bookedVisit? hold).2.2⟩
  refine orderlyCommit_append.mpr ⟨?_, ?_⟩
  · cases hold : d.store.bookedVisit? existing.bookingReference with
    | none => trivial
    | some old =>
      refine ⟨fun v hv => ?_, orderly_of_no_visit (by simp [Visit.cancelledAudit])⟩
      cases hv
      exact .inl ⟨old, (hbooked old hold).1, rfl, rfl, fun hcancelled => by cases hcancelled⟩
  · refine ⟨fun v hv => ?_, orderly_of_no_visit (by simp [Application.bookedAudit])⟩
    cases hv
    exact .inl ⟨draft, (hasVisit_supersede hbooked actionedBy d.now hdraft).mpr hv, rfl, rfl,
      fun hbooked => by cases hbooked⟩

/-- What an action commits is orderly where it is committed. -/
theorem orderly_of_writes (h : d.store.Linked) {a : Action} {c : Commit} (hw : d.Writes a c) :
    d.store.rows.OrderlyCommit c := by
  cases hw with
  | createGroup | updateGroup | deleteGroup | createTemplate | updateTemplate
  | setTemplateActive | deleteTemplate => exact orderly_of_no_visit (by simp)
  | reserve counts booking known admits unused => exact orderly_start h unused
  | change counts found known admits unused => exact orderly_start h unused
  | amend stored incomplete drafted counts placing =>
    obtain ⟨hv, hdraft, -⟩ := h.sound.of_draft? drafted
    have hsame := sameRows_of_placeAmended placing
    rw [orderlyCommit_cons, orderlyCommit_cons]
    refine ⟨fun v hv => (by cases hv), fun v hv => ?_,
      orderly_of_no_visit (by simp [Application.audit])⟩
    cases hv
    exact .inl ⟨_, hv, hsame.id.symm, hsame.application.symm, fun _ => hdraft⟩
  | book stored incomplete bookable drafted left applies => exact orderly_bookRecords h drafted _
  | cancel outcome short live =>
    exact orderly_cancelRecords h (h.sound.of_cancellationTarget live).1 _
  | discard => exact orderly_of_no_visit (no_visit_discardRecords _ _ _ _)
  | expire => exact orderly_of_no_visit (no_visit_discardRecords _ _ _ _)

/-- A visit that is saved has the id of a stored visit of the same application, or it is the draft
of a new application and has the next id. -/
theorem renewed_of_writes (h : d.store.Linked) {a : Action} {c : Commit} (hw : d.Writes a c)
    {v : Visit} (hv : .visitSaved v ∈ c) :
    (∃ old, d.store.rows.HasVisit old ∧ old.id = v.id ∧
      old.applicationReference = v.applicationReference) ∨
    a.starts = true ∧ v.id = d.store.nextVisitId := by
  cases hw with
  | createGroup | updateGroup | deleteGroup | createTemplate | updateTemplate
  | setTemplateActive | deleteTemplate => simp at hv
  | reserve counts booking known admits unused =>
    rw [saved_of_start hv]
    exact .inr ⟨rfl, rfl⟩
  | change counts found known admits unused =>
    rw [saved_of_start hv]
    exact .inr ⟨rfl, rfl⟩
  | amend stored incomplete drafted counts placing =>
    have hsame := sameRows_of_placeAmended placing
    rw [saved_of_amend hv]
    exact .inl ⟨_, (h.sound.of_draft? drafted).1, hsame.id.symm, hsame.application.symm⟩
  | @book reference actionedBy existing draft stored incomplete bookable drafted left applies =>
    rcases List.mem_append.mp hv with hv | hv
    · cases hold : d.store.bookedVisit? existing.bookingReference with
      | none => simp [hold] at hv
      | some old =>
        simp [hold, supersedeRecords, Visit.cancelledAudit] at hv
        exact .inl ⟨old, (h.sound.of_bookedVisit? hold).1, by rw [hv]; exact ⟨rfl, rfl⟩⟩
    · simp [Application.bookedAudit] at hv
      exact .inl ⟨draft, (h.sound.of_draft? drafted).1, by rw [hv]; exact ⟨rfl, rfl⟩⟩
  | @cancel bookingReference c target outcome short live =>
    have htarget := (h.sound.of_cancellationTarget live).1
    obtain ⟨audit, hrecords⟩ := cancelRecords_eq h _ htarget c
    rw [hrecords] at hv
    rcases List.mem_cons.mp hv with hv | hv
    · cases hv
      exact .inl ⟨target, htarget, rfl, rfl⟩
    · exact absurd hv (no_visit_behind_target d _ _ _ _ _)
  | discard => exact absurd hv (no_visit_discardRecords _ _ _ _ v)
  | expire => exact absurd hv (no_visit_discardRecords _ _ _ _ v)

end Desk

end PrisonVisits
