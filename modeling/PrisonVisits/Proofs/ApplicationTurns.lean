import PrisonVisits.Proofs.ApplicationFiles
import PrisonVisits.Proofs.CommittedLinks

/-! # The turns of an application

A commit may be about several applications at once: booking one supersedes the booked visit of
another, and cancelling a booking discards every draft that is left of it. Yet at most one part of a
commit is about any one application. That part takes one of a few forms, which are the turns that
the life of an application can take, and the records around it leave the application alone. -/

namespace PrisonVisits

open Rows

/-- The visit is what a cancellation makes of an older state of it. -/
structure Visit.Cancels (v old : Visit) : Prop where
  id : v.id = old.id
  booking : v.reference = old.reference
  application : v.applicationReference = old.applicationReference
  status : v.status = .cancelled

/-- The records of one element of a list without duplicates stand between those of the others. -/
theorem exists_flatMap_eq {α β : Type} {l : List α} (hl : l.Nodup) {a : α} (ha : a ∈ l)
    (g : α → List β) : ∃ before behind, l.flatMap g = before ++ g a ++ behind ∧
      ∀ r ∈ before ++ behind, ∃ b ∈ l, b ≠ a ∧ r ∈ g b := by
  obtain ⟨first, rest, rfl⟩ := List.append_of_mem ha
  have hnot : a ∉ first ++ rest := (List.nodup_cons.mp (List.nodup_middle.mp hl)).1
  refine ⟨first.flatMap g, rest.flatMap g, by simp, fun r hr => ?_⟩
  rw [← List.flatMap_append] at hr
  obtain ⟨b, hb, hr⟩ := List.mem_flatMap.mp hr
  refine ⟨b, ?_, fun hsame => hnot (hsame ▸ hb), hr⟩
  rcases List.mem_append.mp hb with hb | hb
  · exact List.mem_append_left _ hb
  · exact List.mem_append_right _ (List.mem_cons_of_mem _ hb)

namespace Desk

variable {d : Desk} {booking reference : Reference} {id : Option UInt64}

/-- The records with which an action turns to an application, once it is made. -/
inductive Turns (d : Desk) (reference : Reference) : Commit → Prop
  | amend {m : Amendment} {existing placed : Application} {draft moved : Visit} {slot : Slot}
      (stored : d.store.application? reference = some existing)
      (incomplete : existing.completed = false) (drafted : d.store.draft? reference = some draft)
      (placing : d.placeAmended (m.people existing) draft slot = .ok (placed, moved))
      (actionedBy : String) :
      Turns d reference [.applicationSaved (placed.touched d.now),
        .visitSaved ((placed.touched d.now).bring moved d.now),
        (placed.touched d.now).audit .amendedApplication actionedBy d.now]
  | book {existing : Application} {draft : Visit}
      (stored : d.store.application? reference = some existing)
      (incomplete : existing.completed = false) (drafted : d.store.draft? reference = some draft)
      (actionedBy : String) :
      Turns d reference [.visitSaved (existing.booked draft d.now),
        .applicationSaved (existing.complete d.now),
        existing.bookedAudit (existing.booked draft d.now) actionedBy d.now]
  | cancelBooked {old v : Visit} (stored : d.store.rows.HasVisit old)
      (own : old.applicationReference = reference) (booked : old.isBooked = true)
      (cancels : v.Cancels old) (actionedBy : String) :
      Turns d reference [.visitSaved v, v.cancelledAudit actionedBy d.now]
  | cancelDraft {old v : Visit} (stored : d.store.rows.HasVisit old)
      (own : old.applicationReference = reference) (draft : old.isDraft = true)
      (cancels : v.Cancels old) (actionedBy : String) :
      Turns d reference
        [.visitSaved v, .applicationDeleted reference, v.cancelledAudit actionedBy d.now]
  | discard {existing : Application} (stored : d.store.application? reference = some existing)
      (incomplete : existing.completed = false) (actionedBy : String) :
      Turns d reference
        (existing.discardRecords (d.store.draft? reference) actionedBy d.now)

/-- At most one part of the commit is about the application, whose visit has this id. -/
inductive Regards (d : Desk) (reference : Reference) (id : Option UInt64) : Commit → Prop
  | spares {c : Commit} (spares : ∀ r ∈ c, r.Spares reference id) : Regards d reference id c
  | turns {before turn behind : Commit} (turns : d.Turns reference turn)
      (spares : ∀ r ∈ before ++ behind, r.Spares reference id) :
      Regards d reference id (before ++ turn ++ behind)

theorem Regards.turn {c : Commit} (h : d.Turns reference c) : d.Regards reference id c := by
  have hregards : d.Regards reference id ([] ++ c ++ []) := .turns h (by simp)
  rwa [List.nil_append, List.append_nil] at hregards

theorem Regards.ahead {turn behind : Commit} (h : d.Turns reference turn)
    (hbehind : ∀ r ∈ behind, r.Spares reference id) : d.Regards reference id (turn ++ behind) := by
  have hregards : d.Regards reference id ([] ++ turn ++ behind) := .turns h hbehind
  exact hregards

theorem Regards.behind {before c : Commit} (hbefore : ∀ r ∈ before, r.Spares reference id)
    (h : d.Regards reference id c) : d.Regards reference id (before ++ c) := by
  cases h with
  | spares hc => exact .spares (List.forall_mem_append.mpr ⟨hbefore, hc⟩)
  | @turns first turn rest hturn hc =>
    have hall : ∀ r ∈ (before ++ first) ++ rest, r.Spares reference id := by
      rw [List.append_assoc]
      exact List.forall_mem_append.mpr ⟨hbefore, hc⟩
    have hregards := Regards.turns hturn hall
    simpa only [List.append_assoc] using hregards

/-! ## Records of other applications -/

theorem spares_start {a : Application} {o : SessionOccurrence} (hother : a.reference ≠ reference) :
    ∀ r ∈ (d.start a o).records, r.Spares reference id := by
  simp [start, Record.Spares, Application.draftVisit, Application.audit, hother]

theorem spares_supersede {old : Visit} (hother : old.applicationReference ≠ reference)
    (actionedBy : String) (now : Moment) :
    ∀ r ∈ supersedeRecords old actionedBy now, r.Spares reference id := by
  simp [supersedeRecords, superseded, Record.Spares, Visit.cancelledAudit, hother]

theorem spares_discardRecords {a : Application} {draft : Option Visit}
    (hother : a.reference ≠ reference) (hdraft : ∀ v, draft = some v → id ≠ some v.id)
    (actionedBy : String) (now : Moment) :
    ∀ r ∈ a.discardRecords draft actionedBy now, r.Spares reference id := by
  intro r hr
  simp only [Application.discardRecords, List.mem_cons, List.mem_append, List.mem_map,
    Option.mem_toList, List.not_mem_nil, or_false] at hr
  rcases hr with (rfl | ⟨v, hv, rfl⟩) | rfl
  · exact hother
  · exact hdraft v (Option.filter_eq_some_iff.mp hv).1
  · simpa [Application.audit, Record.Spares] using hother

/-! ## The parts of a commit -/

variable {f : Dossier}

/-- Only the application's own visit has the id of it. -/
theorem id_ne_of_other (hf : d.store.rows.Files booking reference f) {v : Visit}
    (hv : d.store.rows.HasVisit v) (hother : v.applicationReference ≠ reference) :
    f.visit.map (·.id) ≠ some v.id := by
  intro hid
  obtain ⟨w, hw, hsame⟩ := Option.map_eq_some_iff.mp hid
  obtain ⟨hstored, hown⟩ := (hf.visit w).mpr hw
  exact hother (hstored.unique hv hsame ▸ hown)

theorem visit_unique (hf : d.store.rows.Files booking reference f) {v w : Visit}
    (hv : d.store.rows.HasVisit v) (hvown : v.applicationReference = reference)
    (hw : d.store.rows.HasVisit w) (hwown : w.applicationReference = reference) : v = w := by
  have hfirst := (hf.visit v).mp ⟨hv, hvown⟩
  rw [(hf.visit w).mp ⟨hw, hwown⟩] at hfirst
  exact (Option.some.inj hfirst).symm

/-- Discarding an application is a turn of it and leaves every other one alone. -/
theorem regards_discard (h : d.store.Linked) (hf : d.store.rows.Files booking reference f)
    {discarded : Reference} {existing : Application}
    (hstored : d.store.application? discarded = some existing)
    (hopen : existing.completed = false) (actionedBy : String) :
    d.Regards reference (f.visit.map (·.id))
      (existing.discardRecords (d.store.draft? discarded) actionedBy d.now) := by
  by_cases hown : discarded = reference
  · subst hown
    exact .turn (.discard hstored hopen actionedBy)
  · have hkey := h.sound.keyed.applications discarded existing hstored
    refine .spares (spares_discardRecords (hkey ▸ hown) (fun v hv => ?_) actionedBy d.now)
    obtain ⟨hrow, -, happlication⟩ := h.sound.of_draft? hv
    exact id_ne_of_other hf hrow (happlication ▸ hown)

theorem regards_book (h : d.store.Linked) (hf : d.store.rows.Files booking reference f)
    {booked : Reference} {existing : Application} {draft : Visit}
    (hstored : d.store.application? booked = some existing) (hopen : existing.completed = false)
    (hdrafted : d.store.draft? booked = some draft) (actionedBy : String) :
    d.Regards reference (f.visit.map (·.id))
      ((d.store.bookedVisit? existing.bookingReference).toList.flatMap
          (supersedeRecords · actionedBy d.now) ++
        [.visitSaved (existing.booked draft d.now), .applicationSaved (existing.complete d.now),
          existing.bookedAudit (existing.booked draft d.now) actionedBy d.now]) := by
  obtain ⟨hdraftrow, hdraft, hdraftown⟩ := h.sound.of_draft? hdrafted
  have hkey := h.sound.keyed.applications booked existing hstored
  by_cases hown : booked = reference
  · -- what is superseded is not the draft, so it is of another application
    subst hown
    refine .behind (fun r hr => ?_) (.turn (.book hstored hopen hdrafted actionedBy))
    obtain ⟨old, hold, hr⟩ := List.mem_flatMap.mp hr
    obtain ⟨holdrow, -, holdbooked⟩ := h.sound.of_bookedVisit? (Option.mem_toList.mp hold)
    refine spares_supersede (fun hsame => ?_) actionedBy d.now r hr
    rw [visit_unique hf holdrow hsame hdraftrow hdraftown] at holdbooked
    rw [Visit.isDraft_of_isBooked holdbooked] at hdraft
    cases hdraft
  · have hbooks : ∀ r ∈ [Record.visitSaved (existing.booked draft d.now),
        .applicationSaved (existing.complete d.now),
        existing.bookedAudit (existing.booked draft d.now) actionedBy d.now],
        r.Spares reference (f.visit.map (·.id)) := by
      simp [Record.Spares, Application.booked, Application.bring, Application.complete,
        Application.bookedAudit, hkey, hdraftown, hown]
    cases hold : d.store.bookedVisit? existing.bookingReference with
    | none => exact .spares hbooks
    | some old =>
      obtain ⟨holdrow, -, holdbooked⟩ := h.sound.of_bookedVisit? hold
      rw [Option.toList_some, List.flatMap_singleton]
      by_cases holdown : old.applicationReference = reference
      · have hcancels : (superseded old d.now).Cancels old := ⟨rfl, rfl, rfl, rfl⟩
        exact .ahead (.cancelBooked holdrow holdown holdbooked hcancels actionedBy) hbooks
      · exact .spares (List.forall_mem_append.mpr
          ⟨spares_supersede holdown actionedBy d.now, hbooks⟩)

theorem nodup_pendingOf (h : d.store.Sound) (bookingReference : Reference) (target : Visit) :
    (d.pendingOf bookingReference target).Nodup := by
  unfold pendingOf
  rw [h.visitsForReference_eq]
  exact (h.keyed.visits.ascending_values.nodup.filter _).filter _

theorem spares_discardPending (h : d.store.Linked) (hf : d.store.rows.Files booking reference f)
    {v : Visit} (hv : d.store.rows.HasVisit v) (hdraft : v.isDraft = true)
    (hother : v.applicationReference ≠ reference) (actionedBy : String) :
    ∀ r ∈ d.discardPending v actionedBy, r.Spares reference (f.visit.map (·.id)) := by
  obtain ⟨a, ha, -, hrecords⟩ := discardPending_eq_discardRecords h hv hdraft actionedBy
  have hkey : a.reference = v.applicationReference := h.sound.keyed.applications _ a ha
  rw [hrecords]
  refine spares_discardRecords (hkey ▸ hother) (fun w hw => ?_) actionedBy d.now
  cases hw
  exact id_ne_of_other hf hv hother

/-- Of the pending drafts, one at most is the application's. -/
theorem regards_pending (h : d.store.Linked) (hf : d.store.rows.Files booking reference f)
    {pending : List Visit} (hnodup : pending.Nodup)
    (hpending : ∀ v ∈ pending, d.store.rows.HasVisit v ∧ v.isDraft = true) (actionedBy : String) :
    d.Regards reference (f.visit.map (·.id))
      (pending.flatMap fun v => d.discardPending v actionedBy) := by
  by_cases hown : ∃ v ∈ pending, v.applicationReference = reference
  · obtain ⟨v, hv, rfl⟩ := hown
    obtain ⟨hrow, hdraft⟩ := hpending v hv
    obtain ⟨a, ha, hopen, hrecords⟩ := discardPending_eq_discardRecords h hrow hdraft actionedBy
    obtain ⟨before, behind, hall, hrest⟩ := exists_flatMap_eq hnodup hv
      fun v => d.discardPending v actionedBy
    rw [hall, hrecords, ← h.draft?_eq hrow hdraft]
    refine .turns (.discard ha hopen actionedBy) fun r hr => ?_
    obtain ⟨w, hw, hne, hr⟩ := hrest r hr
    obtain ⟨hwrow, hwdraft⟩ := hpending w hw
    have hother : w.applicationReference ≠ v.applicationReference := fun hsame =>
      hne (visit_unique hf hwrow hsame hrow rfl)
    exact spares_discardPending h hf hwrow hwdraft hother actionedBy r hr
  · refine .spares fun r hr => ?_
    obtain ⟨v, hv, hr⟩ := List.mem_flatMap.mp hr
    obtain ⟨hrow, hdraft⟩ := hpending v hv
    exact spares_discardPending h hf hrow hdraft (fun hsame => hown ⟨v, hv, hsame⟩) actionedBy r hr

theorem regards_cancel (h : d.store.Linked) (hf : d.store.rows.Files booking reference f)
    {bookingReference : Reference} {target : Visit} (htarget : d.store.rows.HasVisit target)
    (hlive : target.isBooked = true ∨ target.isDraft = true) (c : Cancellation) :
    d.Regards reference (f.visit.map (·.id))
      (d.cancelRecords (d.store.visitsForReference bookingReference) target c) := by
  have hpending : ∀ v ∈ d.pendingOf bookingReference target,
      (d.store.rows.HasVisit v ∧ v.isDraft = true) ∧ v.id ≠ target.id := by
    intro v hv
    obtain ⟨⟨hrow, -⟩, hdraft, hne⟩ := (mem_pendingOf h.sound).mp hv
    exact ⟨⟨hrow, hdraft⟩, hne⟩
  have hcancels : (d.cancelledTarget target c).Cancels target := ⟨rfl, rfl, rfl, rfl⟩
  rw [cancelRecords_eq_append h bookingReference htarget c]
  by_cases hown : target.applicationReference = reference
  · -- the other drafts of the booking are of other applications
    have hbehind : ∀ r ∈ (d.pendingOf bookingReference target).flatMap
        fun v => d.discardPending v c.actionedBy, r.Spares reference (f.visit.map (·.id)) := by
      intro r hr
      obtain ⟨v, hv, hr⟩ := List.mem_flatMap.mp hr
      obtain ⟨⟨hrow, hdraft⟩, hne⟩ := hpending v hv
      refine spares_discardPending h hf hrow hdraft (fun hsame => hne ?_) c.actionedBy r hr
      rw [visit_unique hf hrow hsame htarget hown]
    cases hdraft : target.isDraft with
    | true =>
      rw [hown]
      exact .ahead (.cancelDraft htarget hown hdraft hcancels c.actionedBy) hbehind
    | false =>
      rw [hdraft] at hlive
      have hbooked : target.isBooked = true := hlive.resolve_right nofun
      exact .ahead (.cancelBooked htarget hown hbooked hcancels c.actionedBy) hbehind
  · have hrest := regards_pending h hf (nodup_pendingOf h.sound bookingReference target)
      (fun v hv => (hpending v hv).1) c.actionedBy
    have hbefore : ∀ r ∈ Record.visitSaved (d.cancelledTarget target c) ::
        ((if target.isDraft then [.applicationDeleted target.applicationReference] else []) ++
          [(d.cancelledTarget target c).cancelledAudit c.actionedBy d.now]),
        r.Spares reference (f.visit.map (·.id)) := by
      cases target.isDraft <;>
        simp [Record.Spares, cancelledTarget, Visit.cancelledAudit, hown]
    have hregards := Regards.behind hbefore hrest
    simpa only [List.cons_append, List.append_assoc, List.nil_append] using hregards

/-- What an action commits is about an application in one part at most, unless the application is
the one that it makes. -/
theorem regards_of_writes (h : d.store.Linked) (hf : d.store.rows.Files booking reference f)
    {a : Action} {c : Commit} (hw : d.Writes a c) (hnew : a.starts = true →
      ∃ x o, c = (d.start x o).records ∧ x.reference ≠ reference) :
    d.Regards reference (f.visit.map (·.id)) c := by
  cases hw with
  | createGroup | updateGroup | deleteGroup | createTemplate | updateTemplate
  | setTemplateActive | deleteTemplate => exact .spares (by simp [Record.Spares])
  | reserve | change =>
    obtain ⟨x, o, hrecords, hother⟩ := hnew rfl
    rw [hrecords]
    exact .spares (spares_start hother)
  | @amend amended m existing placed draft moved stored incomplete drafted counts placing =>
    by_cases hown : amended = reference
    · rw [hown] at stored drafted
      exact .turn (.amend stored incomplete drafted placing m.actionedBy)
    · have hkey := h.sound.keyed.applications amended existing stored
      have hsame := sameRows_of_placeAmended placing
      obtain ⟨-, -, hdraftown⟩ := h.sound.of_draft? drafted
      refine .spares ?_
      simp [Record.Spares, Application.touched, Application.bring, Application.audit,
        hsame.reference, hkey, hsame.application, hdraftown, hown]
  | book stored incomplete bookable drafted left applies =>
    exact regards_book h hf stored incomplete drafted _
  | cancel outcome short live =>
    obtain ⟨hrow, -, hlive⟩ := h.sound.of_cancellationTarget live
    exact regards_cancel h hf hrow hlive _
  | discard stored incomplete => exact regards_discard h hf stored incomplete _
  | expire stored incomplete stale => exact regards_discard h hf stored incomplete _

/-- What an action saves under the id of the application's visit is of the application, and nothing
else is. -/
theorem saved_iff_of_writes (h : d.store.Linked) (hf : d.store.rows.Files booking reference f)
    {a : Action} {c : Commit} (hw : d.Writes a c) (hnew : a.starts = true →
      ∃ x o, c = (d.start x o).records ∧ x.reference ≠ reference) {v : Visit}
    (hv : .visitSaved v ∈ c) :
    v.applicationReference = reference ↔ f.visit.map (·.id) = some v.id := by
  rcases renewed_of_writes h hw hv with ⟨old, hold, hid, hsame⟩ | ⟨hstarts, hid⟩
  · rw [← hid, ← hsame]
    constructor
    · intro hown
      rw [(hf.visit old).mp ⟨hold, hown⟩, Option.map_some]
    · intro hown
      exact Classical.byContradiction fun hother => id_ne_of_other hf hold hother hown
  · -- the draft of a new application is of another one, and nothing has its id
    obtain ⟨x, o, hrecords, hother⟩ := hnew hstarts
    rw [hrecords] at hv
    rw [saved_of_start hv]
    refine iff_of_false hother fun hnext => ?_
    obtain ⟨w, hw, hwid⟩ := Option.map_eq_some_iff.mp hnext
    have hlt := h.below w ((hf.visit w).mpr hw).1
    rw [hwid] at hlt
    exact UInt64.lt_irrefl _ hlt

/-- The dossier takes what an action commits as the rows do. -/
theorem files_of_writes (h : d.store.Linked) (hf : d.store.rows.Files booking reference f)
    {a : Action} {c : Commit} (hw : d.Writes a c) (hnew : a.starts = true →
      ∃ x o, c = (d.start x o).records ∧ x.reference ≠ reference) :
    (d.store.rows.applyCommit c).Files booking reference (f.takeAll booking reference c) :=
  hf.applyCommit f.keepsTo_own fun _ hv => saved_iff_of_writes h hf hw hnew hv

end Desk

end PrisonVisits
