import PrisonVisits.Proofs.Plans

/-! # What requests commit

For each request there is one form that its records can take, and the checks that must have passed
before; the expiry of an application has such a form too. Everything that a request can do to the
store follows from this list. -/

namespace PrisonVisits

/-- The action may find that there is nothing to do. -/
def Action.mayRest : Action → Bool
  | .setTemplateActive .. | .cancel .. => true
  | _ => false

namespace Desk

/-- The session of a template on a date is open to a prisoner. -/
structure Opens (d : Desk) (context : PrisonerContext) (t : SessionTemplate) (slot : Slot) :
    Prop where
  template : d.store.template? slot.template = some t
  active : t.active = true
  heldThere : t.prisonCode = context.prisonCode
  fires : t.schedule.firesOn slot.date = true
  window : ∃ earliest latest, d.bookingWindow = .ok (earliest, latest) ∧ earliest ≤ slot.date ∧
    slot.date ≤ latest
  eligible : ∃ eligibility, d.store.eligibilityOf t = .ok eligibility ∧
    eligibility.refusing context = []

/-- Seats of the slot that other bookings than this one have taken. -/
def takenBeside (d : Desk) (t : SessionTemplate) (slot : Slot) (bookingReference : Reference) :
    Nat :=
  ((t.occurrence slot.date).loadWithHolds
    (d.store.visitsInRoomDay (t.occurrence slot.date).roomDay) (some bookingReference)).taken
    slot.restriction

/-- What holding a slot takes: the session is open to the prisoner and has a free seat. -/
structure Admits (d : Desk) (context : PrisonerContext) (t : SessionTemplate) (slot : Slot)
    (bookingReference : Reference) : Prop extends d.Opens context t slot where
  seat : d.takenBeside t slot bookingReference < (t.capacity.seats slot.restriction).toNat

theorem prisoner_eq_ok {d : Desk} {prisonerId : String} {context : PrisonerContext} :
    d.prisoner prisonerId = .ok context ↔ d.prisoners[prisonerId]? = some context := by
  unfold prisoner
  cases d.prisoners[prisonerId]? <;> simp

theorem getTemplate_eq_ok {s : Store} {reference : Reference} {t : SessionTemplate} :
    s.getTemplate reference = .ok t ↔ s.template? reference = some t := found_eq_ok

theorem checkEligible_eq_ok {d : Desk} {context : PrisonerContext} {prisonerId : String}
    {t : SessionTemplate} {u : Unit} : d.checkEligible context prisonerId t = .ok u ↔
      ∃ eligibility, d.store.eligibilityOf t = .ok eligibility ∧
        eligibility.refusing context = [] := by
  simp [checkEligible, bind_eq_ok, require_eq_ok]

/-- In a session that is open to the prisoner, only the seats decide. -/
theorem Opens.holdSlot_eq {d : Desk} {prisonerId : String} {context : PrisonerContext}
    {t : SessionTemplate} {slot : Slot} (h : d.Opens context t slot)
    (hknown : d.prisoners[prisonerId]? = some context) (bookingReference : Reference) :
    d.holdSlot prisonerId slot bookingReference =
      if d.takenBeside t slot bookingReference < (t.capacity.seats slot.restriction).toNat then
        .ok (t.occurrence slot.date)
      else .error (.capacityExceeded slot.restriction (t.capacity.seats slot.restriction)) := by
  obtain ⟨earliest, latest, hwindow, hfirst, hlast⟩ := h.window
  have heligible : d.checkEligible context prisonerId t = .ok () :=
    checkEligible_eq_ok.mpr h.eligible
  simp only [holdSlot, prisoner_eq_ok.mpr hknown, getTemplate_eq_ok.mpr h.template, h.active,
    checkHeldThere, h.heldThere, h.fires, hwindow, hfirst, hlast, heligible, beq_self_eq_true,
    decide_true, Bool.and_self, require, if_true, ok_bind]
  change (if decide (d.takenBeside t slot bookingReference <
    (t.capacity.seats slot.restriction).toNat) = true then _ else _) >>= _ = _
  simp only [decide_eq_true_eq]
  split <;> rfl

theorem holdSlot_eq_ok {d : Desk} {prisonerId : String} {slot : Slot} {bookingReference : Reference}
    {o : SessionOccurrence} : d.holdSlot prisonerId slot bookingReference = .ok o ↔
      ∃ context t, d.prisoners[prisonerId]? = some context ∧
        d.Admits context t slot bookingReference ∧ o = t.occurrence slot.date := by
  constructor
  · intro h
    simp only [holdSlot, bind_eq_ok, pure_eq_ok, require_eq_ok, prisoner_eq_ok, getTemplate_eq_ok,
      checkEligible_eq_ok, checkHeldThere] at h
    obtain ⟨context, hcontext, t, ht, _, hactive, _, hprison, _, hfires, ⟨earliest, latest⟩,
      hwindow, _, hdate, _, heligible, _, hseat, rfl⟩ := h
    simp only [Bool.and_eq_true, decide_eq_true_eq] at hdate
    refine ⟨context, t, hcontext, ⟨⟨ht, hactive, ?_, hfires, ⟨_, _, hwindow, hdate⟩, heligible⟩,
      of_decide_eq_true hseat⟩, rfl⟩
    simpa using hprison
  · rintro ⟨context, t, hcontext, h, rfl⟩
    rw [h.toOpens.holdSlot_eq hcontext, if_pos h.seat]

theorem placeAmended_eq_ok {d : Desk} {a placed : Application} {draft moved : Visit} {slot : Slot}
    (h : d.placeAmended a draft slot = .ok (placed, moved)) :
    (slot = ⟨a.sessionTemplateReference, a.sessionDate, a.restriction⟩ ∧ placed = a ∧
      moved = draft) ∨
    slot ≠ ⟨a.sessionTemplateReference, a.sessionDate, a.restriction⟩ ∧
      ∃ context t, d.prisoners[a.prisonerId]? = some context ∧
        d.Admits context t slot a.bookingReference ∧
        placed = { a with
          sessionTemplateReference := t.reference
          sessionDate := slot.date
          restriction := slot.restriction } ∧
        moved = { draft with
          sessionTemplateReference := t.reference
          visitRoom := t.visitRoom
          window := .onDate slot.date t.startTime t.endTime
          restriction := slot.restriction } := by
  unfold placeAmended at h
  split at h
  · next hsame =>
    cases h
    exact .inl ⟨hsame, rfl, rfl⟩
  · next hmoves =>
    obtain ⟨o, hheld, h⟩ := bind_eq_ok.mp h
    obtain ⟨context, t, hcontext, hadmits, rfl⟩ := holdSlot_eq_ok.mp hheld
    cases pure_eq_ok.mp h
    exact .inr ⟨hmoves, context, t, hcontext, hadmits, rfl, rfl⟩

/-! ## The forms -/

/-- The booking that a reservation is made under is new or has visits of the prisoner. -/
inductive BooksUnder (d : Desk) (r : ReserveRequest) : Reference → Prop
  | fresh {bookingReference : Reference} (asked : r.bookingReference = none)
      (unused : d.store.containsReference bookingReference = false) :
      BooksUnder d r bookingReference
  | again {bookingReference : Reference} {first : Visit}
      (asked : r.bookingReference = some bookingReference)
      (known : (d.store.visitsForReference bookingReference).head? = some first)
      (own : first.prisonerId = r.prisonerId) : BooksUnder d r bookingReference

/-- The records that an action commits at a desk, with the checks that let it. -/
inductive Writes (d : Desk) : Action → Commit → Prop
  | createGroup {prisonCode name : String} {entries : GroupEntries} {reference : Reference}
      (named : checkName name = .ok ()) (sized : checkEntries entries = .ok ())
      (unused : d.store.containsReference reference = false) :
      Writes d (.createGroup prisonCode name entries)
        [.groupSaved { reference, prisonCode, name, entries }]
  | updateGroup {reference : Reference} {name : String} {entries : GroupEntries}
      {existing : HierarchyGroup} (named : checkName name = .ok ())
      (sized : checkEntries entries = .ok ()) (stored : d.store.group? reference = some existing)
      (kind : existing.entries.kind = entries.kind) :
      Writes d (.updateGroup reference name entries) [.groupSaved { existing with name, entries }]
  | deleteGroup {reference : Reference} {group : HierarchyGroup}
      (stored : d.store.group? reference = some group)
      (unused : d.store.templatesUsingGroup reference = []) :
      Writes d (.deleteGroup reference) [.groupDeleted reference]
  | createTemplate {draft : TemplateDraft} {reference : Reference} {conflicts : List Reference}
      (checked : draft.check = .ok ())
      (room : d.store.templateCount draft.prisonCode < Limits.maxTemplatesPerPrison)
      (unused : d.store.containsReference reference = false)
      (compared : d.store.conflictsOf (.ofDraft reference draft true) = .ok conflicts) :
      Writes d (.createTemplate draft) [.templateSaved (.ofDraft reference draft true)]
  | updateTemplate {reference : Reference} {draft : TemplateDraft} {existing : SessionTemplate}
      {conflicts : List Reference} (checked : draft.check = .ok ())
      (stored : d.store.template? reference = some existing)
      (prison : existing.prisonCode = draft.prisonCode)
      (fits : ∀ v ∈ d.store.liveVisits reference d.now,
        (SessionTemplate.ofDraft existing.reference draft existing.active).fits v = true)
      (compared : d.store.conflictsOf (.ofDraft existing.reference draft existing.active) =
        .ok conflicts) :
      Writes d (.updateTemplate reference draft)
        [.templateSaved (.ofDraft existing.reference draft existing.active)]
  | setTemplateActive {reference : Reference} {active : Bool} {template : SessionTemplate}
      (stored : d.store.template? reference = some template) (turned : template.active ≠ active)
      (idle : active = false → d.store.liveVisits reference d.now = []) :
      Writes d (.setTemplateActive reference active) [.templateSaved { template with active }]
  | deleteTemplate {reference : Reference} {template : SessionTemplate}
      (stored : d.store.template? reference = some template) (inactive : template.active = false)
      (unused : d.store.visitsForTemplate reference = []) :
      Writes d (.deleteTemplate reference) [.templateDeleted reference]
  | reserve {r : ReserveRequest} {bookingReference reference : Reference}
      {context : PrisonerContext} {t : SessionTemplate}
      (counts : checkCounts r.visitors r.support = .ok ())
      (booking : d.BooksUnder r bookingReference)
      (known : d.prisoners[r.prisonerId]? = some context)
      (admits : d.Admits context t r.slot bookingReference)
      (unused : d.store.containsReference reference = false) :
      Writes d (.reserve r)
        (d.start (r.application reference bookingReference (t.occurrence r.slot.date) d.now)
          (t.occurrence r.slot.date)).records
  | change {r : ChangeRequest} {reference : Reference} {booked : Visit} {context : PrisonerContext}
      {t : SessionTemplate} (counts : checkCounts r.visitors r.support = .ok ())
      (found : d.store.bookedVisit? r.bookingReference = some booked)
      (known : d.prisoners[booked.prisonerId]? = some context)
      (admits : d.Admits context t r.slot r.bookingReference)
      (unused : d.store.containsReference reference = false) :
      Writes d (.change r)
        (d.start (r.application reference booked (t.occurrence r.slot.date) d.now)
          (t.occurrence r.slot.date)).records
  | amend {reference : Reference} {m : Amendment} {existing placed : Application}
      {draft moved : Visit} (stored : d.store.application? reference = some existing)
      (incomplete : existing.completed = false) (drafted : d.store.draft? reference = some draft)
      (counts : checkCounts (m.people existing).visitors (m.people existing).support = .ok ())
      (placing : d.placeAmended (m.people existing) draft (amendedSlot existing m) =
        .ok (placed, moved)) :
      Writes d (.amend reference m)
        [.applicationSaved (placed.touched d.now),
          .visitSaved ((placed.touched d.now).bring moved d.now),
          (placed.touched d.now).audit .amendedApplication m.actionedBy d.now]
  | book {reference : Reference} {actionedBy : String} {existing : Application} {draft : Visit}
      (stored : d.store.application? reference = some existing)
      (incomplete : existing.completed = false) (bookable : existing.checkBookable = .ok ())
      (drafted : d.store.draft? reference = some draft)
      (left : existing.kind = .change →
        (d.store.bookedVisit? existing.bookingReference).isSome = true)
      (applies : d.confirmStillApplies existing = .ok ()) :
      Writes d (.book reference actionedBy)
        ((d.store.bookedVisit? existing.bookingReference).toList.flatMap
            (supersedeRecords · actionedBy d.now) ++
          [.visitSaved (existing.booked draft d.now), .applicationSaved (existing.complete d.now),
            existing.bookedAudit (existing.booked draft d.now) actionedBy d.now])
  | cancel {bookingReference : Reference} {c : Cancellation} {target : Visit}
      (outcome : c.outcome ≠ .supersededCancellation)
      (short : Text.byteLength (c.text.getD "") ≤ Limits.maxTextLength)
      (live : cancellationTarget (d.store.visitsForReference bookingReference) = some target) :
      Writes d (.cancel bookingReference c)
        (d.cancelRecords (d.store.visitsForReference bookingReference) target c)
  | discard {reference : Reference} {actionedBy : String} {existing : Application}
      (stored : d.store.application? reference = some existing)
      (incomplete : existing.completed = false) :
      Writes d (.discard reference actionedBy)
        (existing.discardRecords (d.store.draft? reference) actionedBy d.now)
  | expire {reference : Reference} {existing : Application}
      (stored : d.store.application? reference = some existing)
      (incomplete : existing.completed = false)
      (stale : ∃ cutoff, d.expiryCutoff = some cutoff ∧ ¬cutoff ≤ existing.modifiedAt) :
      Writes d .expire (existing.discardRecords (d.store.draft? reference) "system" d.now)

/-- What the plan of an action comes to: nothing, or records of the action's form. A visit id is
taken for the draft of a new application only. -/
inductive Grants (d : Desk) (a : Action) {α : Type} : Transition α → Prop
  | nothing (answer : α) (rests : a.mayRest = true) : Grants d a (.nothing answer)
  | of (answer : α) {records : Commit} (writes : d.Writes a records) :
    Grants d a (.of answer records)
  | start (answer : α) {application : Application} {o : SessionOccurrence}
      (writes : d.Writes a (d.start application o).records) :
      Grants d a ⟨answer, (d.start application o).records, true⟩

/-! ## Every request takes its form -/

theorem mem_sortedReferences {references : List Reference} {reference : Reference} :
    reference ∈ sortedReferences references ↔ reference ∈ references := by
  simp [sortedReferences, Std.ExtTreeSet.mem_toList, Std.ExtTreeSet.mem_ofList]

theorem grants_createGroup {d : Desk} {prisonCode name : String} {entries : GroupEntries}
    {t : Transition HierarchyGroup} (h : (d.planCreateGroup prisonCode name entries).Yields t) :
    d.Grants (.createGroup prisonCode name entries) t := by
  unfold planCreateGroup at h
  obtain ⟨⟨⟩, hnamed, h⟩ := h.bind
  obtain ⟨⟨⟩, hsized, h⟩ := h.bind
  obtain ⟨reference, hfresh, h⟩ := h.bind
  rw [← h.pure]
  exact .of _ (.createGroup hnamed.lift hsized.lift (Store.unused_of_freshReference hfresh))

theorem grants_updateGroup {d : Desk} {reference : Reference} {name : String}
    {entries : GroupEntries} {t : Transition HierarchyGroup}
    (h : d.planUpdateGroup reference name entries = .ok t) :
    d.Grants (.updateGroup reference name entries) t := by
  unfold planUpdateGroup at h
  obtain ⟨⟨⟩, hnamed, h⟩ := bind_eq_ok.mp h
  obtain ⟨⟨⟩, hsized, h⟩ := bind_eq_ok.mp h
  obtain ⟨existing, hstored, h⟩ := bind_eq_ok.mp h
  obtain ⟨⟨⟩, hkind, h⟩ := bind_eq_ok.mp h
  rw [← pure_eq_ok.mp h]
  exact .of _ (.updateGroup hnamed hsized (found_eq_ok.mp hstored)
    (by simpa using require_eq_ok.mp hkind))

theorem grants_deleteGroup {d : Desk} {reference : Reference} {t : Transition Unit}
    (h : d.planDeleteGroup reference = .ok t) : d.Grants (.deleteGroup reference) t := by
  unfold planDeleteGroup at h
  obtain ⟨group, hstored, h⟩ := bind_eq_ok.mp h
  obtain ⟨⟨⟩, hunused, h⟩ := bind_eq_ok.mp h
  rw [← pure_eq_ok.mp h]
  exact .of _ (.deleteGroup (found_eq_ok.mp hstored) (by simpa using require_eq_ok.mp hunused))

theorem grants_createTemplate {d : Desk} {draft : TemplateDraft} {t : Transition SavedTemplate}
    (h : (d.planCreateTemplate draft).Yields t) : d.Grants (.createTemplate draft) t := by
  unfold planCreateTemplate at h
  obtain ⟨⟨⟩, hchecked, h⟩ := h.bind
  obtain ⟨⟨⟩, hroom, h⟩ := h.bind
  obtain ⟨reference, hfresh, h⟩ := h.bind
  obtain ⟨conflicts, hcompared, h⟩ := h.bind
  rw [← h.pure]
  exact .of _ (.createTemplate hchecked.lift (of_decide_eq_true (require_eq_ok.mp hroom.lift))
    (Store.unused_of_freshReference hfresh) hcompared.lift)

theorem grants_updateTemplate {d : Desk} {reference : Reference} {draft : TemplateDraft}
    {t : Transition SavedTemplate} (h : d.planUpdateTemplate reference draft = .ok t) :
    d.Grants (.updateTemplate reference draft) t := by
  unfold planUpdateTemplate at h
  obtain ⟨⟨⟩, hchecked, h⟩ := bind_eq_ok.mp h
  obtain ⟨existing, hstored, h⟩ := bind_eq_ok.mp h
  obtain ⟨⟨⟩, hprison, h⟩ := bind_eq_ok.mp h
  obtain ⟨⟨⟩, hstranded, h⟩ := bind_eq_ok.mp h
  obtain ⟨conflicts, hcompared, h⟩ := bind_eq_ok.mp h
  rw [← pure_eq_ok.mp h]
  refine .of _ (.updateTemplate hchecked (found_eq_ok.mp hstored)
    (by simpa using require_eq_ok.mp hprison) ?_ hcompared)
  simpa [List.filter_eq_nil_iff] using require_eq_ok.mp hstranded

theorem grants_setTemplateActive {d : Desk} {reference : Reference} {active : Bool}
    {t : Transition SessionTemplate} (h : d.planSetActive reference active = .ok t) :
    d.Grants (.setTemplateActive reference active) t := by
  unfold planSetActive at h
  obtain ⟨template, hstored, h⟩ := bind_eq_ok.mp h
  split at h
  · rw [← pure_eq_ok.mp h]
    exact .nothing _ rfl
  · next hturned =>
    obtain ⟨⟨⟩, hidle, h⟩ := bind_eq_ok.mp h
    rw [← pure_eq_ok.mp h]
    refine .of _ (.setTemplateActive (found_eq_ok.mp hstored) (by simpa using hturned) ?_)
    rintro rfl
    simpa using require_eq_ok.mp hidle

theorem grants_deleteTemplate {d : Desk} {reference : Reference} {t : Transition Unit}
    (h : d.planDeleteTemplate reference = .ok t) :
    d.Grants (.deleteTemplate reference) t := by
  unfold planDeleteTemplate at h
  obtain ⟨template, hstored, h⟩ := bind_eq_ok.mp h
  obtain ⟨⟨⟩, hinactive, h⟩ := bind_eq_ok.mp h
  obtain ⟨⟨⟩, hunused, h⟩ := bind_eq_ok.mp h
  rw [← pure_eq_ok.mp h]
  refine .of _ (.deleteTemplate (found_eq_ok.mp hstored)
    (by simpa using require_eq_ok.mp hinactive) ?_)
  have hnone := List.isEmpty_iff.mp (require_eq_ok.mp hunused)
  refine List.eq_nil_iff_forall_not_mem.mpr fun v hv => ?_
  have hin := mem_sortedReferences.mpr (List.mem_map_of_mem hv : v.reference ∈ _)
  rw [hnone] at hin
  cases hin

theorem grants_reserve {d : Desk} {r : ReserveRequest} {t : Transition Application}
    (h : (d.planReserve r).Yields t) : d.Grants (.reserve r) t := by
  unfold planReserve at h
  obtain ⟨⟨⟩, hcounts, h⟩ := h.bind
  obtain ⟨bookingReference, hbooking, h⟩ := h.bind
  obtain ⟨o, hheld, h⟩ := h.bind
  obtain ⟨reference, hfresh, h⟩ := h.bind
  obtain ⟨context, template, hknown, hadmits, rfl⟩ := holdSlot_eq_ok.mp hheld.lift
  rw [← h.pure]
  refine .start _ (.reserve hcounts.lift ?_ hknown hadmits (Store.unused_of_freshReference hfresh))
  unfold bookingFor at hbooking
  split at hbooking
  · next hasked => exact .fresh hasked (Store.unused_of_freshReference hbooking)
  · next asked hasked =>
    obtain ⟨first, hfirst, hbooking⟩ := hbooking.bind
    obtain ⟨⟨⟩, hown, hbooking⟩ := hbooking.bind
    cases hbooking.pure
    have hknown := found_eq_ok.mp hfirst.lift
    have hsame := require_eq_ok.mp hown.lift
    exact .again hasked hknown (by simpa using hsame)

theorem grants_change {d : Desk} {r : ChangeRequest} {t : Transition Application}
    (h : (d.planChange r).Yields t) : d.Grants (.change r) t := by
  unfold planChange at h
  obtain ⟨⟨⟩, hcounts, h⟩ := h.bind
  obtain ⟨booked, hbooked, h⟩ := h.bind
  obtain ⟨o, hheld, h⟩ := h.bind
  obtain ⟨reference, hfresh, h⟩ := h.bind
  obtain ⟨context, template, hknown, hadmits, rfl⟩ := holdSlot_eq_ok.mp hheld.lift
  rw [← h.pure]
  refine .start _ (.change hcounts.lift ?_ hknown hadmits (Store.unused_of_freshReference hfresh))
  have hfound := hbooked.lift
  unfold bookedForChange at hfound
  split at hfound
  · next hstored => rw [hstored, Except.ok.inj hfound]
  · split at hfound <;> cases hfound

theorem grants_amend {d : Desk} {reference : Reference} {m : Amendment} {t : Transition Application}
    (h : d.planAmend reference m = .ok t) : d.Grants (.amend reference m) t := by
  unfold planAmend at h
  obtain ⟨existing, hstored, h⟩ := bind_eq_ok.mp h
  obtain ⟨⟨⟩, hopen, h⟩ := bind_eq_ok.mp h
  obtain ⟨draft, hdraft, h⟩ := bind_eq_ok.mp h
  obtain ⟨⟨⟩, hcounts, h⟩ := bind_eq_ok.mp h
  obtain ⟨⟨placed, moved⟩, hplaced, h⟩ := bind_eq_ok.mp h
  rw [← pure_eq_ok.mp h]
  exact .of _ (.amend (found_eq_ok.mp hstored) (by simpa using require_eq_ok.mp hopen)
    (found_eq_ok.mp hdraft) hcounts hplaced)

theorem grants_book {d : Desk} {reference : Reference} {actionedBy : String} {t : Transition Visit}
    (h : d.planBook reference actionedBy = .ok t) : d.Grants (.book reference actionedBy) t := by
  unfold planBook at h
  obtain ⟨existing, hstored, h⟩ := bind_eq_ok.mp h
  obtain ⟨⟨⟩, hopen, h⟩ := bind_eq_ok.mp h
  obtain ⟨⟨⟩, hbookable, h⟩ := bind_eq_ok.mp h
  obtain ⟨draft, hdraft, h⟩ := bind_eq_ok.mp h
  obtain ⟨⟨⟩, hleft, h⟩ := bind_eq_ok.mp h
  obtain ⟨⟨⟩, happlies, h⟩ := bind_eq_ok.mp h
  rw [← pure_eq_ok.mp h]
  refine .of _ (.book (found_eq_ok.mp hstored) (by simpa using require_eq_ok.mp hopen) hbookable
    (found_eq_ok.mp hdraft) (fun hkind => ?_) happlies)
  simpa [hkind] using require_eq_ok.mp hleft

theorem grants_cancel {d : Desk} {bookingReference : Reference} {c : Cancellation}
    {t : Transition (Option Visit)} (h : d.planCancel bookingReference c = .ok t) :
    d.Grants (.cancel bookingReference c) t := by
  unfold planCancel at h
  obtain ⟨⟨⟩, houtcome, h⟩ := bind_eq_ok.mp h
  obtain ⟨⟨⟩, hshort, h⟩ := bind_eq_ok.mp h
  dsimp only at h
  split at h
  · rw [← pure_eq_ok.mp h]
    exact .nothing _ rfl
  · next target hlive =>
    rw [← pure_eq_ok.mp h]
    exact .of _ (.cancel (by simpa using require_eq_ok.mp houtcome)
      (of_decide_eq_true (require_eq_ok.mp hshort)) hlive)

theorem discardRecords_draft? (s : Store) (a : Application) (reference : Reference)
    (actionedBy : String) (now : Moment) :
    a.discardRecords (s.visitForApplication? reference) actionedBy now =
      a.discardRecords (s.draft? reference) actionedBy now := by
  simp [Application.discardRecords, Store.draft?, Option.filter_filter]

theorem grants_discard {d : Desk} {reference : Reference} {actionedBy : String}
    {t : Transition Unit} (h : d.planDiscard reference actionedBy = .ok t) :
    d.Grants (.discard reference actionedBy) t := by
  unfold planDiscard at h
  obtain ⟨existing, hstored, h⟩ := bind_eq_ok.mp h
  obtain ⟨⟨⟩, hopen, h⟩ := bind_eq_ok.mp h
  rw [← pure_eq_ok.mp h, discardRecords_draft?]
  exact .of _ (.discard (found_eq_ok.mp hstored) (by simpa using require_eq_ok.mp hopen))

theorem writes_expire {d : Desk} {reference : Reference} (h : d.expiryRecords reference ≠ []) :
    d.Writes .expire (d.expiryRecords reference) := by
  revert h
  unfold expiryRecords
  split
  · next cutoff existing hcutoff hstored =>
    split
    · exact fun h => absurd rfl h
    · next hstale =>
      intro _
      simp only [Bool.or_eq_true, decide_eq_true_eq, not_or, Bool.not_eq_true] at hstale
      rw [discardRecords_draft?]
      exact .expire hstored hstale.1 ⟨cutoff, hcutoff, hstale.2⟩
  · exact fun h => absurd rfl h

end Desk

end PrisonVisits
