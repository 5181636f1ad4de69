import PrisonVisits.Proofs.Clearance
import PrisonVisits.Proofs.Thinning

/-! # Booking an application

A booking makes the draft the booked visit, completes the application and supersedes the visit that
was booked before, and the rest of the desk stays. The visits are saved in their places, so even the
indexes are left alone. -/

namespace PrisonVisits

open Rows

/-! ## What a booking changes -/

/-- The audit of what happens to a visit. -/
def Visit.noted (v : Visit) (kind : AuditKind) (actionedBy : String) (now : Moment) :
    EventAudit where
  bookingReference := v.reference
  applicationReference := some v.applicationReference
  sessionTemplateReference := some v.sessionTemplateReference
  kind
  actionedBy
  recordedAt := now

namespace Desk

/-- The audits of a booking: the visit that was booked before is cancelled first. -/
def bookAudits (d : Desk) (draft : Visit) (actionedBy : String) : List EventAudit :=
  (d.store.bookedVisit? draft.reference).toList.map (·.noted .cancelledVisit actionedBy d.now) ++
    [draft.noted .bookedVisit actionedBy d.now]

/-- The desk after the draft of an application has been booked. The draft is the booked visit, any
visit that was booked before it is cancelled as superseded, the application is completed, two audits
at most are recorded and handed out, and that is all, in a commit of its own. -/
structure Promotes (d : Desk) (a : Application) (draft : Visit) (actionedBy : String)
    (after : Desk) : Prop where
  booked : after.store.visit? draft.id = some { draft with
    status := .booked
    contact := a.contact
    visitors := a.visitors
    support := a.support
    modifiedAt := d.now }
  others : ∀ id, id ≠ draft.id → after.store.visit? id =
    (d.store.visit? id).map fun v =>
      if v.reference = draft.reference ∧ v.isBooked = true then
        { v with
          status := .cancelled
          outcome := some .supersededCancellation
          modifiedAt := d.now }
      else v
  before : ∀ v, d.store.bookedVisit? draft.reference = some v ↔
    d.store.visit? v.id = some v ∧ v.reference = draft.reference ∧ v.isBooked = true
  completed : after.store.application? a.reference =
    some { a with completed := true, modifiedAt := d.now }
  applications : ∀ reference, reference ≠ a.reference →
    after.store.application? reference = d.store.application? reference
  audits : ∀ booking, after.store.auditsFor booking = d.store.auditsFor booking ++
    if booking = draft.reference then d.bookAudits draft actionedBy else []
  store : ∃ visits applications audits, after.store = { d.store with visits, applications, audits }
  rest : after = { d with
    store := after.store
    journal := d.journal.append (d.bookRecords a draft actionedBy)
    feed := (d.bookAudits draft actionedBy).foldl AuditFeed.send d.feed
    delivered := d.delivered ++ d.bookAudits draft actionedBy }

end Desk

/-! ## Visits saved in their places -/

/-- The visits have the same place in every index. -/
structure Visit.SharesKeys (v w : Visit) : Prop where
  id : v.id = w.id
  booking : v.reference = w.reference
  application : v.applicationReference = w.applicationReference
  template : v.sessionTemplateReference = w.sessionTemplateReference
  roomDay : v.roomDay = w.roomDay

/-- The record saves a stored visit under its old keys, or it is about neither visits nor templates.
-/
def Rows.SavesInPlace (t : Rows) : Record → Prop
  | .visitSaved v => ∃ old, t.HasVisit old ∧ old.SharesKeys v
  | .applicationSaved _ | .audit _ => True
  | _ => False

theorem Rows.SavesInPlace.apply {t : Rows} {r r' : Record} (h : t.SavesInPlace r)
    (h' : t.SavesInPlace r') : (t.apply r).SavesInPlace r' := by
  cases r' with
  | applicationSaved | audit => trivial
  | groupSaved | groupDeleted | templateSaved | templateDeleted | applicationDeleted
  | visitDeleted => cases h'
  | visitSaved v =>
    obtain ⟨old, hold, hkeys⟩ := h'
    cases r with
    | applicationSaved | audit => exact ⟨old, hold, hkeys⟩
    | groupSaved | groupDeleted | templateSaved | templateDeleted | applicationDeleted
    | visitDeleted => cases h
    | visitSaved w =>
      obtain ⟨first, hfirst, hw⟩ := h
      by_cases hid : old.id = w.id
      · -- both records save the same visit
        cases hfirst.unique hold (hw.id.trans hid.symm)
        exact ⟨w, hasVisit_visitSaved.mpr (.inl rfl), hw.id.symm.trans hkeys.id,
          hw.booking.symm.trans hkeys.booking, hw.application.symm.trans hkeys.application,
          hw.template.symm.trans hkeys.template, hw.roomDay.symm.trans hkeys.roomDay⟩
      · exact ⟨old, hasVisit_visitSaved.mpr (.inr ⟨hid, hold⟩), hkeys⟩

namespace Store

variable {s : Store}

theorem saveVisit_inPlace {v old : Visit} (hold : s.rows.HasVisit old) (hkeys : old.SharesKeys v)
    (hnext : v.id < s.nextVisitId) :
    s.saveVisit v = { s with visits := s.visits.insert v.id v } := by
  have hstored : s.visits[v.id]? = some old := by
    rw [← hkeys.id]
    exact hold
  simp only [saveVisit, hstored, reindexVisit, RowIndex.move, hkeys.booking, hkeys.application,
    hkeys.template, hkeys.roomDay, if_true, max_succ_of_lt hnext]

/-- Where visits are saved in their places the indexes and the counter stay. -/
theorem applyCommit_inPlace {c : Commit} (hc : ∀ r ∈ c, s.rows.SavesInPlace r)
    (hids : ∀ v, .visitSaved v ∈ c → v.id < s.nextVisitId) :
    ∃ visits applications audits, s.applyCommit c = { s with visits, applications, audits } := by
  induction c generalizing s with
  | nil => exact ⟨_, _, _, rfl⟩
  | cons r c ih =>
    obtain ⟨hr, hrest⟩ := List.forall_mem_cons.mp hc
    have hfirst : ∃ visits applications audits,
        s.apply r = { s with visits, applications, audits } := by
      cases r with
      | applicationSaved | audit => exact ⟨_, _, _, rfl⟩
      | groupSaved | groupDeleted | templateSaved | templateDeleted | applicationDeleted
      | visitDeleted => cases hr
      | visitSaved v =>
        obtain ⟨old, hold, hkeys⟩ := hr
        exact ⟨_, _, _, saveVisit_inPlace hold hkeys (hids v List.mem_cons_self)⟩
    obtain ⟨visits, applications, audits, hfirst⟩ := hfirst
    obtain ⟨visits', applications', audits', hthen⟩ := ih (s := s.apply r)
      (fun r' hr' => by rw [rows_apply]; exact hr.apply (hrest r' hr')) (fun v hv => by
        rw [hfirst]
        exact hids v (List.mem_cons_of_mem _ hv))
    refine ⟨visits', applications', audits', ?_⟩
    change (s.apply r).applyCommit c = _
    rw [hthen, hfirst]

end Store

/-! ## The records of a booking -/

namespace Desk

section

variable {d : Desk} {a : Application} {draft : Visit} {actionedBy : String}

theorem audits_bookRecords (h : a.Drafts draft) :
    (d.bookRecords a draft actionedBy).filterMap Record.audit? =
      d.bookAudits draft actionedBy := by
  unfold bookRecords bookAudits Visit.noted
  rw [h.booking, h.application]
  cases d.store.bookedVisit? a.bookingReference <;> rfl

/-- The visit that was booked before is the only one of its booking that is booked. -/
theorem bookedVisit?_eq_some (h : d.store.Sound) (hone : d.store.rows.OneBooked)
    {booking : Reference} {v : Visit} : d.store.bookedVisit? booking = some v ↔
      d.store.visit? v.id = some v ∧ v.reference = booking ∧ v.isBooked = true := by
  constructor
  · exact fun hv => h.of_bookedVisit? hv
  · intro hv
    obtain ⟨hrow, hreference, hbooked⟩ := hv
    have hsome := (bookedVisit?_isSome_iff h).mpr ⟨v, hrow, hreference, hbooked⟩
    obtain ⟨w, hw⟩ := Option.isSome_iff_exists.mp hsome
    obtain ⟨hwrow, hwreference, hwbooked⟩ := h.of_bookedVisit? hw
    rw [hw, hone w v hwrow hrow hwbooked hbooked (hwreference.trans hreference.symm)]

/-- Superseding touches the booked visit of the booking and no other. -/
theorem visits_supersede (h : d.store.Sound) (hone : d.store.rows.OneBooked) (booking : Reference)
    (id : UInt64) : (d.store.rows.applyCommit ((d.store.bookedVisit? booking).toList.flatMap
      (supersedeRecords · actionedBy d.now))).visits[id]? =
    (d.store.visit? id).map fun v =>
      if v.reference = booking ∧ v.isBooked = true then superseded v d.now else v := by
  cases hold : d.store.bookedVisit? booking with
  | none =>
    change d.store.visit? id = _
    cases hv : d.store.visit? id with
    | none => rfl
    | some v =>
      have hid : v.id = id := h.keyed.visits id v hv
      subst hid
      rw [Option.map_some, if_neg]
      intro hbooked
      rw [(bookedVisit?_eq_some h hone).mpr ⟨hv, hbooked⟩] at hold
      cases hold
  | some old =>
    obtain ⟨hrow, hbooked⟩ := (bookedVisit?_eq_some h hone).mp hold
    change (d.store.visits.insert old.id (superseded old d.now))[id]? = _
    rw [Table.getElem?_insert]
    split
    · next hid => rw [← hid, hrow, Option.map_some, if_pos hbooked]
    · next hid =>
      change d.store.visit? id = _
      cases hv : d.store.visit? id with
      | none => rfl
      | some v =>
        have hkey : v.id = id := h.keyed.visits id v hv
        rw [Option.map_some, if_neg]
        intro hvb
        rw [← hkey] at hv hid
        cases hold.symm.trans ((bookedVisit?_eq_some h hone).mpr ⟨hv, hvb⟩)
        exact hid rfl

theorem store_bookRecords (h : d.store.Linked) {reference : Reference}
    (hdrafted : d.store.draft? reference = some draft) :
    ∃ visits applications audits, d.store.applyCommit (d.bookRecords a draft actionedBy) =
      { d.store with visits, applications, audits } := by
  obtain ⟨hrow, -, -⟩ := h.sound.of_draft? hdrafted
  have hsaved : ∀ v, .visitSaved v ∈ d.bookRecords a draft actionedBy →
      ∃ old, d.store.rows.HasVisit old ∧ old.SharesKeys v := by
    intro v hv
    rcases saved_of_book hv with ⟨old, hold, rfl⟩ | rfl
    · exact ⟨old, (h.sound.of_bookedVisit? hold).1, rfl, rfl, rfl, rfl, rfl⟩
    · exact ⟨draft, hrow, rfl, rfl, rfl, rfl, rfl⟩
  refine Store.applyCommit_inPlace (fun r hr => ?_) fun v hv => ?_
  · cases r with
    | visitSaved v => exact hsaved v hr
    | applicationSaved | audit => trivial
    | groupSaved | groupDeleted | templateSaved | templateDeleted | applicationDeleted
    | visitDeleted =>
      simp [bookRecords, supersedeRecords, Visit.cancelledAudit, Application.bookedAudit] at hr
  · obtain ⟨old, hold, hkeys⟩ := hsaved v hv
    rw [← hkeys.id]
    exact h.below old hold

theorem rows_bookRecords : d.store.rows.applyCommit (d.bookRecords a draft actionedBy) =
    (d.store.rows.applyCommit ((d.store.bookedVisit? a.bookingReference).toList.flatMap
      (supersedeRecords · actionedBy d.now))).applyCommit [.visitSaved (a.booked draft d.now),
        .applicationSaved (a.complete d.now),
        a.bookedAudit (a.booked draft d.now) actionedBy d.now] := applyCommit_append ..

theorem commit_bookRecords (h : a.Drafts draft) :
    d.commit (d.bookRecords a draft actionedBy) = { d with
      store := d.store.applyCommit (d.bookRecords a draft actionedBy)
      journal := d.journal.append (d.bookRecords a draft actionedBy)
      feed := (d.bookAudits draft actionedBy).foldl AuditFeed.send d.feed
      delivered := d.delivered ++ d.bookAudits draft actionedBy } := by
  have hsome : (d.bookRecords a draft actionedBy).isEmpty = false := by
    cases hold : d.store.bookedVisit? a.bookingReference <;>
      simp [bookRecords, hold, supersedeRecords]
  rw [commit, hsome, if_neg Bool.false_ne_true, audits_bookRecords h]

/-- The audits of a booking are all under its reference. -/
theorem reference_of_bookAudits (h : d.store.Sound) {e : EventAudit}
    (he : e ∈ d.bookAudits draft actionedBy) : e.bookingReference = draft.reference := by
  rcases List.mem_append.mp he with he | he
  · obtain ⟨old, hold, rfl⟩ := List.mem_map.mp he
    exact (h.of_bookedVisit? (Option.mem_toList.mp hold)).2.1
  · rw [List.mem_singleton.mp he]
    rfl

theorem auditsFor_bookRecords (h : d.store.Sound) (hdrafts : a.Drafts draft) (booking : Reference) :
    (d.store.applyCommit (d.bookRecords a draft actionedBy)).auditsFor booking =
      d.store.auditsFor booking ++
        if booking = draft.reference then d.bookAudits draft actionedBy else [] := by
  have hof : ∀ e ∈ d.bookAudits draft actionedBy, e.bookingReference = draft.reference :=
    fun e he => reference_of_bookAudits h he
  have haudits := audits_applyCommit d.store.rows (d.bookRecords a draft actionedBy) booking
  rw [audits_bookRecords hdrafts, ← Store.rows_applyCommit] at haudits
  refine haudits.trans (congrArg (d.store.auditsFor booking ++ ·) ?_)
  split
  · next hsame => exact List.filter_eq_self.mpr fun e he => by simp [hof e he, hsame]
  · next hother =>
    refine List.filter_eq_nil_iff.mpr fun e he => ?_
    simp [hof e he, Ne.symm hother]

theorem promotes_bookRecords (h : d.store.Linked) (hone : d.store.rows.OneBooked)
    (ha : d.store.application? a.reference = some a)
    (hdrafted : d.store.draft? a.reference = some draft) (actionedBy : String) :
    d.Promotes a draft actionedBy (d.commit (d.bookRecords a draft actionedBy)) := by
  have hdrafts := h.drafts ha hdrafted
  have hstore := d.commit_store (d.bookRecords a draft actionedBy)
  have hrows := congrArg Store.rows hstore
  rw [Store.rows_applyCommit, rows_bookRecords] at hrows
  -- the rows come from superseding, and then the draft and the application are saved
  have hvisits : ∀ id, (d.commit (d.bookRecords a draft actionedBy)).store.visit? id =
      if draft.id = id then some (a.booked draft d.now)
      else (d.store.visit? id).map fun v =>
        if v.reference = draft.reference ∧ v.isBooked = true then superseded v d.now else v := by
    intro id
    refine (congrArg (fun t : Rows => t.visits[id]?) hrows).trans
      ((Table.getElem?_insert ..).trans ?_)
    rw [visits_supersede h.sound hone, hdrafts.booking]
    rfl
  have happlications : ∀ reference, (d.commit (d.bookRecords a draft actionedBy)).store.application?
      reference = if a.reference = reference then some (a.complete d.now)
        else d.store.application? reference := by
    intro reference
    refine (congrArg (fun t : Rows => t.applications[reference]?) hrows).trans
      ((Table.getElem?_insert ..).trans ?_)
    cases d.store.bookedVisit? a.bookingReference <;> rfl
  exact {
    booked := (hvisits draft.id).trans (if_pos rfl)
    others := fun id hid => (hvisits id).trans (if_neg (Ne.symm hid))
    before := fun v => bookedVisit?_eq_some h.sound hone
    completed := (happlications a.reference).trans (if_pos rfl)
    applications := fun reference hne => (happlications reference).trans (if_neg (Ne.symm hne))
    audits := fun booking => by rw [hstore]; exact auditsFor_bookRecords h.sound hdrafts booking
    store := by rw [hstore]; exact store_bookRecords h hdrafted
    rest := by rw [hstore]; exact commit_bookRecords hdrafts }

end

/-! ## Runs -/

/-- Bookings of an application are granted exactly if it clears, they do what they say, and refused
ones do nothing. The session of a stored application is always known. -/
structure BooksExactly (d : Desk) (reference : Reference) (actionedBy : String) : Prop where
  session : ∀ a, d.store.application? reference = some a →
    ∃ session, d.store.HasShape a.sessionTemplateReference session
  granted_iff : (∃ v, (d.book reference actionedBy).1 = .ok v) ↔
    ∃ a, d.store.application? reference = some a ∧ d.Clears a
  promotes : ∀ v, (d.book reference actionedBy).1 = .ok v → ∃ a draft,
    d.store.application? reference = some a ∧ d.store.draft? reference = some draft ∧
      a.reference = reference ∧ a.Drafts draft ∧
      (d.book reference actionedBy).2.store.visit? draft.id = some v ∧
      d.Promotes a draft actionedBy (d.book reference actionedBy).2
  refused : ∀ refusal, (d.book reference actionedBy).1 = .error refusal →
    (d.book reference actionedBy).2 = d

variable {d : Desk}

theorem booksExactly (h : d.store.Linked) (hbacked : d.store.rows.Backed)
    (hchangeable : d.store.rows.Changeable) (hsized : d.store.rows.Sized)
    (hone : d.store.rows.OneBooked) (hgrouped : d.store.rows.Grouped)
    (hnamed : d.store.rows.Named) (reference : Reference) (actionedBy : String) :
    d.BooksExactly reference actionedBy where
  session := fun a ha => exists_session hbacked hgrouped hnamed ha
  granted_iff := by
    constructor
    · rintro ⟨v, hv⟩
      obtain ⟨a, draft, hpasses, -⟩ := passes_of_book hv
      exact ⟨a, hpasses.stored, hpasses.clears⟩
    · rintro ⟨a, ha, hclears⟩
      obtain ⟨draft, hpasses⟩ := exists_passes h hbacked hchangeable hsized ha hclears
      exact ⟨_, congrArg Prod.fst (book_of_passes hpasses actionedBy)⟩
  promotes := by
    intro v hv
    obtain ⟨a, draft, hpasses, rfl⟩ := passes_of_book hv
    have hkey : a.reference = reference := h.sound.keyed.applications reference a hpasses.stored
    subst hkey
    rw [book_of_passes hpasses]
    have hpromotes := promotes_bookRecords h hone hpasses.stored hpasses.drafted actionedBy
    exact ⟨a, draft, hpasses.stored, hpasses.drafted, rfl, h.drafts hpasses.stored hpasses.drafted,
      hpromotes.booked, hpromotes⟩
  refused := by
    intro refusal hrefused
    rcases d.book_cases reference actionedBy with ⟨a, draft, hpasses⟩ | ⟨refusal, hnothing⟩
    · rw [book_of_passes hpasses] at hrefused
      cases hrefused
    · rw [hnothing]

/-- All along every run from an empty journal, applications are booked exactly if they clear, and
booking one changes what it says and nothing else. A run with restarts takes commits that fit their
length fields. -/
theorem booksExactly_throughout (policy : BookingPolicy) (now : Moment)
    (prisoners : Std.ExtTreeMap String PrisonerContext) (references : ReferenceSource)
    (actions : List Action)
    (hrange : (openOn #[] policy now prisoners references).Throughout InRange actions)
    (hfits : .restart ∈ actions →
      (openOn #[] policy now prisoners references).Along Fits actions) :
    (openOn #[] policy now prisoners references).Throughout
      (fun d => ∀ reference actionedBy, d.BooksExactly reference actionedBy) actions := by
  have hbacked := rows_throughout_openOn (P := fun t => t.Backed ∧ t.Changeable)
    (fun h hP hc => ⟨backed_of_writes h hP.1 hc, changeable_of_writes h hP.2 hc⟩)
    ⟨anchored_empty.backed, changeable_empty⟩ hrange hfits
  have hlimits := kept_throughout preserved_withinLimits hrange False.elim
  have hone := kept_throughout preserved_oneBooked hrange False.elim
  have hgrouped := kept_throughout preserved_grouped hrange False.elim
  have hnamed := kept_throughout preserved_named hrange False.elim
  refine (hbacked.and ((hlimits.and hone).and (hgrouped.and hnamed))).imp ?_
  rintro d ⟨⟨hlinked, hbacked, hchangeable⟩, ⟨hlimits, hone⟩, hgrouped, hnamed⟩
  exact booksExactly hlinked hbacked hchangeable hlimits.live.sized hone.live hgrouped.live
    hnamed.live

/-- Application d clears, and booking it supersedes visit 1 of booking b. -/
theorem booksExactly_throughout_sample :
    let d := Sample.desk.run Sample.pendingChange
    Sample.desk.Throughout InRange Sample.pendingChange ∧
      (d.store.bookedVisit? "b").map (·.id) = some 1 ∧
      ∃ a draft, d.store.application? "d" = some a ∧ d.Clears a ∧
        d.store.draft? "d" = some draft ∧ d.Promotes a draft "clerk" (d.book "d" "clerk").2 := by
  intro d
  have hrange := throughout_inRange (m := 0) (by decide) (by decide +kernel)
    Sample.along_pendingChange (by decide)
  have hbooks : d.BooksExactly "d" "clerk" := (booksExactly_throughout Sample.policy _ _
    Sample.letters Sample.pendingChange hrange
    (by simp [Sample.pendingChange, Sample.confirmed, Sample.actions])).last "d" "clerk"
  have hgranted : (d.book "d" "clerk").1.map (·.isBooked) = .ok true := by decide +kernel
  obtain ⟨v, hv, -⟩ := map_eq_ok.mp hgranted
  obtain ⟨a, draft, ha, hdrafted, -, -, -, hpromotes⟩ := hbooks.promotes v hv
  obtain ⟨b, hb, hclears⟩ := hbooks.granted_iff.mp ⟨v, hv⟩
  cases hb.symm.trans ha
  exact ⟨hrange, by decide +kernel, a, draft, ha, hclears, hdrafted, hpromotes⟩

end Desk

end PrisonVisits
