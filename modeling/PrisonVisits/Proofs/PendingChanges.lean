import PrisonVisits.Proofs.History
import PrisonVisits.Proofs.Pairing
import PrisonVisits.Proofs.Refusals

/-! # A pending change has something to change

A change starts from a booked visit. As long as the change is pending, the booked visit may give way
to another one of its booking, and if it is cancelled the pending change goes with it. In the middle
of a commit the old visit may have ended while the new one is not booked yet, so this is about whole
commits. It leaves one check of a booking without anything to refuse. -/

namespace PrisonVisits

open Rows

namespace Rows

variable {t : Rows}

def HasBooked (t : Rows) (booking : Reference) : Prop :=
  ∃ v, t.HasVisit v ∧ v.reference = booking ∧ v.isBooked = true

/-- Every change that is pending has a booked visit to change. -/
def Changeable (t : Rows) : Prop :=
  ∀ v, t.HasVisit v → v.status = .changing → t.HasBooked v.reference

theorem changeable_empty : Store.empty.rows.Changeable :=
  fun v hv => absurd hv (not_hasVisit_empty v)

/-- A visit that is deleted is gone if it is not saved again. -/
theorem not_hasVisit_of_deleted {c : Commit} {v : Visit} (hdeleted : .visitDeleted v.id ∈ c)
    (hsaved : ∀ w, .visitSaved w ∈ c → w.id ≠ v.id) : ¬(t.applyCommit c).HasVisit v := by
  obtain ⟨before, behind, rfl⟩ := List.append_of_mem hdeleted
  rw [applyCommit_append, applyCommit_cons]
  intro hv
  refine hasVisit_applyCommit (q := fun w => w.id ≠ v.id) (fun w hw => ?_) (fun w hw => ?_) hv rfl
  · exact (hasVisit_visitDeleted.mp hw).1
  · exact hsaved w (List.mem_append_right _ (List.mem_cons_of_mem _ hw))

end Rows

theorem Visit.isDraft_of_changing {v : Visit} (h : v.status = .changing) : v.isDraft = true := by
  rw [isDraft, h]
  rfl

namespace Desk

variable {d : Desk}

/-! ## One action -/

/-- A change that is pending behind an action was made of a visit that was booked before it. -/
theorem hasBooked_of_changing (h : d.store.Linked) (hchangeable : d.store.rows.Changeable)
    {a : Action} {c : Commit} (hc : d.Writes a c) {w : Visit}
    (hw : (d.store.rows.applyCommit c).HasVisit w) (hchanging : w.status = .changing) :
    d.store.rows.HasBooked w.reference := by
  refine hasVisit_applyCommit
    (q := fun w => w.status = .changing → d.store.rows.HasBooked w.reference)
    hchangeable (fun w hw hchanging => ?_) hw hchanging
  cases saves_of_writes h hc hw with
  | new next draft booking changes => exact changes hchanging
  | renewed stored draft id booking prisoner status =>
    rcases status with hsame | hbooked
    · rw [booking]
      exact hchangeable _ stored (hsame.symm.trans hchanging)
    · cases hbooked.symm.trans hchanging
  | ended stored live outcome notes end_eq =>
    rw [end_eq] at hchanging
    cases hchanging

/-- Where a booked visit is cancelled no draft of its booking is left. -/
theorem undrafted_of_cancel (h : d.store.Linked) {target : Visit}
    (htarget : d.store.rows.HasVisit target) (hbooked : target.isBooked = true) (c : Cancellation)
    {w : Visit} (hdraft : w.isDraft = true) (hw : (d.store.rows.applyCommit
      (d.cancelRecords (d.store.visitsForReference target.reference) target c)).HasVisit w) :
    w.reference ≠ target.reference := by
  intro hsame
  have hsaved : ∀ x, .visitSaved x ∈
      d.cancelRecords (d.store.visitsForReference target.reference) target c →
      x = d.cancelledTarget target c := fun x hx => saved_of_cancel h htarget hx
  have hstored : d.store.rows.HasVisit w := by
    refine hasVisit_applyCommit (q := fun x => x.isDraft = true → d.store.rows.HasVisit x)
      (fun x hx _ => hx) (fun x hx hxd => ?_) hw hdraft
    rw [hsaved x hx] at hxd
    cases hxd
  have hne : w.id ≠ target.id := by
    intro hid
    rw [hstored.unique htarget hid, Visit.isDraft_of_isBooked hbooked] at hdraft
    cases hdraft
  refine not_hasVisit_of_deleted ?_ (fun x hx => ?_) hw
  · have hpending := (mem_pendingOf h.sound).mpr ⟨⟨hstored, hsame⟩, hdraft, hne⟩
    obtain ⟨audit, hrecords⟩ := discardPending_eq h hstored hdraft c.actionedBy
    rw [cancelRecords_eq_append h _ htarget c]
    refine List.mem_cons_of_mem _ (List.mem_append_right _ (List.mem_cons_of_mem _ ?_))
    exact List.mem_flatMap.mpr ⟨w, hpending, by rw [hrecords]; simp⟩
  · rw [hsaved x hx]
    exact hne.symm

/-- Where a booked visit ends, another visit of its booking is booked, or no draft of the booking is
left. -/
theorem displaced_of_writes (h : d.store.Linked) {a : Action} {c : Commit} (hc : d.Writes a c)
    {v : Visit} (hv : d.store.rows.HasVisit v) (hbooked : v.isBooked = true) {outcome : Outcome}
    {notes : List VisitNote} (hended : .visitSaved (v.ended outcome notes d.now) ∈ c) :
    (∃ x, .visitSaved x ∈ c ∧ x.reference = v.reference ∧ x.isBooked = true) ∨
      ∀ w, (d.store.rows.applyCommit c).HasVisit w → w.isDraft = true →
        w.reference ≠ v.reference := by
  cases hc with
  | createGroup | updateGroup | deleteGroup | createTemplate | updateTemplate
  | setTemplateActive | deleteTemplate => simp at hended
  | reserve | change => cases congrArg Visit.status (saved_of_start hended)
  | amend stored incomplete drafted counts placing =>
    have hdraft := (drafts_of_placeAmended (h.drafts stored drafted) placing).isDraft
    rw [← saved_of_amend hended] at hdraft
    cases hdraft
  | @book reference actionedBy existing draft stored incomplete bookable drafted left applies =>
    rcases saved_of_book hended with ⟨old, hold, hsame⟩ | hsame
    · have hbooking := congrArg Visit.reference hsame
      change v.reference = old.reference at hbooking
      rw [hbooking, (h.sound.of_bookedVisit? hold).2.1]
      exact .inl ⟨existing.booked draft d.now, by simp, (h.drafts stored drafted).booking, rfl⟩
    · cases congrArg Visit.status hsame
  | @cancel bookingReference c target outcome short live =>
    obtain ⟨hrow, hreference, -⟩ := h.sound.of_cancellationTarget live
    have hid := congrArg Visit.id (saved_of_cancel h hrow hended)
    cases hv.unique hrow hid
    rw [← hreference]
    exact .inr fun w hw hdraft => undrafted_of_cancel h hrow hbooked c hdraft hw
  | discard => exact absurd hended (no_visit_discardRecords _ _ _ _ _)
  | expire => exact absurd hended (no_visit_discardRecords _ _ _ _ _)

/-- What an action commits leaves something to change for every change that is pending. -/
theorem changeable_of_writes (h : d.store.Linked) (hchangeable : d.store.rows.Changeable)
    {a : Action} {c : Commit} (hc : d.Writes a c) : (d.store.rows.applyCommit c).Changeable := by
  intro w hw hchanging
  obtain ⟨v, hv, hreference, hbooked⟩ := hasBooked_of_changing h hchangeable hc hw hchanging
  rcases settled_of_writes h hc hv (Visit.isDraft_of_isBooked hbooked) with
    hstays | ⟨-, outcome, notes, hended, -⟩
  · exact ⟨v, hstays, hreference, hbooked⟩
  · rcases displaced_of_writes h hc hv hbooked hended with ⟨x, hx, hsame, hxb⟩ | hnone
    · exact ⟨x, hasVisit_of_saved h hc hx, hsame.trans hreference, hxb⟩
    · exact absurd hreference.symm (hnone w hw (Visit.isDraft_of_changing hchanging))

end Desk

/-! ## The check that never refuses -/

/-- The refusal says that the booked visit of a pending change has gone. -/
def Refusal.nothingLeft : Refusal → Bool
  | .state (.nothingLeftToChange _) => true
  | _ => false

namespace Desk

variable {d : Desk}

theorem bookedVisit?_isSome_iff (h : d.store.Sound) {booking : Reference} :
    (d.store.bookedVisit? booking).isSome = true ↔ d.store.rows.HasBooked booking := by
  unfold Store.bookedVisit? HasBooked
  rw [List.find?_isSome]
  constructor
  · rintro ⟨v, hv, hbooked⟩
    obtain ⟨hrow, hreference⟩ := h.mem_visitsForReference.mp hv
    exact ⟨v, hrow, hreference, hbooked⟩
  · rintro ⟨v, hrow, hreference, hbooked⟩
    exact ⟨v, h.mem_visitsForReference.mpr ⟨hrow, hreference⟩, hbooked⟩

theorem avoids_planBook (h : d.store.Linked) (hchangeable : d.store.rows.Changeable)
    (reference : Reference) (actionedBy : String) :
    Avoids Refusal.nothingLeft (d.planBook reference actionedBy) := by
  refine (avoids_found rfl _).bind fun existing hstored => ?_
  refine (avoids_require rfl _).bind fun _ _ => ?_
  refine (Application.avoids_checkBookable (fun _ => rfl)
    (avoids_checkCounts (fun _ => rfl) _ _)).bind fun _ _ => ?_
  refine (avoids_found rfl _).bind fun draft hdrafted => ?_
  have hleft : (existing.kind != .change ||
      (d.store.bookedVisit? existing.bookingReference).isSome) = true := by
    have hdrafts := h.drafts (found_eq_ok.mp hstored) (found_eq_ok.mp hdrafted)
    by_cases hchange : existing.kind = .change
    · have hchanging : draft.status = .changing := by rw [hdrafts.status, hchange]; rfl
      have hbooked := hchangeable draft (h.sound.of_draft? (found_eq_ok.mp hdrafted)).1 hchanging
      rw [hdrafts.booking, ← bookedVisit?_isSome_iff h.sound] at hbooked
      rw [hbooked, Bool.or_true]
    · simp [hchange]
  refine Avoids.bind ?_ fun _ _ => ?_
  · rw [hleft]
    exact avoids_ok ()
  · exact (d.avoids_confirmStillApplies (fun _ _ => rfl) (fun _ => rfl) (fun _ => rfl)
      (fun _ _ => rfl) existing).bind fun _ _ => avoids_ok _

/-! ## Runs -/

/-- A booking that a change is pending for has a booked visit, and no application is refused for
want of one. The drafts of changes are those of the incomplete applications for changes. -/
structure ChangesBooked (d : Desk) (booking : Reference) : Prop where
  applications : (∃ v ∈ d.store.visitsForReference booking, v.status = .changing) ↔
    ∃ (reference : Reference) (a : Application), d.store.application? reference = some a ∧
      a.bookingReference = booking ∧ a.kind = .change ∧ a.completed = false
  booked : (∃ v ∈ d.store.visitsForReference booking, v.status = .changing) →
    (d.store.bookedVisit? booking).isSome = true
  left : ∀ application actionedBy,
    (d.book application actionedBy).1 ≠ .error (.state (.nothingLeftToChange booking))

theorem changesBooked (h : d.store.Linked) (hbacked : d.store.rows.Backed)
    (hchangeable : d.store.rows.Changeable) (booking : Reference) : d.ChangesBooked booking where
  applications := by
    constructor
    · rintro ⟨v, hv, hchanging⟩
      obtain ⟨hrow, hreference⟩ := h.sound.mem_visitsForReference.mp hv
      obtain ⟨a, ha, hopen, hdrafts⟩ :=
        h.rows.application v hrow (Visit.isDraft_of_changing hchanging)
      refine ⟨_, a, ha, hdrafts.booking.symm.trans hreference, ?_, hopen⟩
      exact a.kind.draftStatus_iff.2.mp (hdrafts.status.symm.trans hchanging)
    · rintro ⟨reference, a, ha, rfl, hkind, hopen⟩
      obtain ⟨-, v, hv, -, -, hchanging, hdrafts⟩ := (h.paired hbacked).draft reference a ha hopen
      have hrow := (h.sound.visitForApplication hv).1
      exact ⟨v, h.sound.mem_visitsForReference.mpr ⟨hrow, hdrafts.booking⟩, hchanging.mpr hkind⟩
  booked := by
    rintro ⟨v, hv, hchanging⟩
    obtain ⟨hrow, hreference⟩ := h.sound.mem_visitsForReference.mp hv
    rw [bookedVisit?_isSome_iff h.sound, ← hreference]
    exact hchangeable v hrow hchanging
  left := by
    intro application actionedBy hrefused
    cases avoids_book (avoids_planBook h hchangeable application actionedBy) _ hrefused

/-- All along every run from an empty journal a pending change has a booked visit to change. A run
with restarts takes commits that fit their length fields. -/
theorem changesBooked_throughout (policy : BookingPolicy) (now : Moment)
    (prisoners : Std.ExtTreeMap String PrisonerContext) (references : ReferenceSource)
    (actions : List Action)
    (hrange : (openOn #[] policy now prisoners references).Throughout InRange actions)
    (hfits : .restart ∈ actions →
      (openOn #[] policy now prisoners references).Along Fits actions) :
    (openOn #[] policy now prisoners references).Throughout
      (fun d => ∀ booking, d.ChangesBooked booking) actions := by
  have hrows := rows_throughout_openOn (P := fun t => t.Backed ∧ t.Changeable)
    (fun h hP hc => ⟨backed_of_writes h hP.1 hc, changeable_of_writes h hP.2 hc⟩)
    ⟨anchored_empty.backed, changeable_empty⟩ hrange hfits
  exact hrows.imp fun d h booking => changesBooked h.1 h.2.1 h.2.2 booking

end Desk

namespace Sample

/-- The prisoner of booking b wants a closed visit instead. -/
def closing : ChangeRequest where
  bookingReference := "b"
  slot := ⟨"a", monday, .closedVisit⟩
  contact := none
  visitors := [⟨1, true⟩]
  support := []
  actionedBy := "clerk"

def pendingChange : List Action := confirmed ++ [.change closing]

theorem along_pendingChange : desk.Along (Desk.AppendsAtMost 1000) pendingChange := by
  refine ⟨⟨nofun, ?_, ?_⟩, ⟨nofun, ?_, ?_⟩, ⟨nofun, ?_, ?_⟩, ⟨nofun, ?_, ?_⟩, ⟨nofun, ?_, ?_⟩,
    trivial⟩
  all_goals decide +kernel

end Sample

/-- While application d would change booking b, the visit that it changes is booked. -/
theorem Desk.changesBooked_throughout_sample :
    ((Sample.desk.run Sample.pendingChange).store.application? "d").map
        (fun a => (a.bookingReference, a.kind, a.completed)) = some ("b", .change, false) ∧
      ((Sample.desk.run Sample.pendingChange).store.bookedVisit? "b").isSome = true := by
  have hrange := Desk.throughout_inRange (m := 0) (by decide) (by decide +kernel)
    Sample.along_pendingChange (by decide)
  have hstand := (changesBooked_throughout Sample.policy _ _ Sample.letters Sample.pendingChange
    hrange (by simp [Sample.pendingChange, Sample.confirmed, Sample.actions])).last "b"
  have hstored : ((Sample.desk.run Sample.pendingChange).store.application? "d").map
      (fun a => (a.bookingReference, a.kind, a.completed)) = some ("b", .change, false) := by
    decide +kernel
  refine ⟨hstored, hstand.booked (hstand.applications.mpr ?_)⟩
  obtain ⟨a, ha, hfacts⟩ := Option.map_eq_some_iff.mp hstored
  simp only [Prod.mk.injEq] at hfacts
  exact ⟨"d", a, ha, hfacts⟩

end PrisonVisits
